import SoKernel.Memory.FrameAllocator

/-!
# Runs of the frame allocator

The allocator refines a finite set of frame numbers.  An allocation takes the least
member out, a release puts a managed frame back, and a reservation takes one frame out;
the packed bitmap is one way to keep such a set.

Main results:

- Theorem {lit}`Represents.step`: one call on the bitmap is one operation on the set.
- Theorem {lit}`frame_allocator_refines_set`: the refinement along every sequence of calls.
- Theorem {lit}`Run.ran`: frames in use at the start of a run stay in use while only frames that
  were handed out are released.
- Theorem {lit}`exists_run_all`: some run hands out every free frame.
-/

namespace SoKernel

/-- A call of the allocator. -/
inductive PfaOp where
  | alloc
  | free (addr : Nat)
  | reserve (addr : Nat)

/-- The address of a call lies below 64 MB. -/
def PfaOp.InRange : PfaOp → Prop
  | .alloc => True
  | .free addr => addr < 2 ^ 26
  | .reserve addr => addr < 2 ^ 26

/-! ## The finite set -/

namespace FrameSet

/-- One operation on the set of free frames of the window from {lit}`lo` to {lit}`hi`; only an
allocation has a result. -/
def step (lo hi : Nat) (F : Finset Nat) : PfaOp → Option Nat × Finset Nat
  | .alloc =>
      if h : F.Nonempty then (some (4096 * F.min' h), F.erase (F.min' h)) else (some 0, F)
  | .free addr =>
      (none, if lo ≤ addr / 4096 ∧ addr / 4096 < hi then insert (addr / 4096) F else F)
  | .reserve addr => (none, F.erase (addr / 4096))

/-- A sequence of operations, with the results in order. -/
def run (lo hi : Nat) (F : Finset Nat) : List PfaOp → List (Option Nat) × Finset Nat
  | [] => ([], F)
  | op :: ops =>
      let (r, F) := step lo hi F op
      let (rs, F) := run lo hi F ops
      (r :: rs, F)

end FrameSet

/-- The frames that the loop over the addresses of a module steps through. -/
def reservedFrames (modStart modEnd : Nat) : Finset Nat :=
  (Finset.range ((modEnd - modStart + 4095) / 4096)).image fun i => (modStart + 4096 * i) / 4096

namespace Pfa

/-! ## Sequences of calls -/

/-- One call; only an allocation has a result. -/
def step (p : Pfa) : PfaOp → Option Nat × Pfa
  | .alloc =>
      let (addr, p) := p.pfaAlloc
      (some addr, p)
  | .free addr => (none, p.pfaFree addr)
  | .reserve addr => (none, p.pfaReserve addr)

/-- A sequence of calls, with the results in order. -/
def run (p : Pfa) : List PfaOp → List (Option Nat) × Pfa
  | [] => ([], p)
  | op :: ops =>
      let (r, p) := p.step op
      let (rs, p) := p.run ops
      (r :: rs, p)

/-- The addresses in hand after a call with the given result: an allocation that succeeds
adds its address, a release drops the addresses of its frame. -/
def held (hand : List Nat) : PfaOp → Option Nat → List Nat
  | .alloc, some addr => if addr = 0 then hand else addr :: hand
  | .alloc, none => hand
  | .free addr, _ => hand.filter fun a => a / 4096 ≠ addr / 4096
  | .reserve _, _ => hand

/-- The addresses that were returned and not released since. -/
def outstanding (p : Pfa) (hand : List Nat) : List PfaOp → List Nat
  | [] => hand
  | op :: ops => (p.step op).2.outstanding (held hand op (p.step op).1) ops

/-! ## The refinement -/

variable {p q : Pfa} {F : Finset Nat}

/-- The set of the free frames. -/
def Represents (p : Pfa) (F : Finset Nat) : Prop :=
  ∀ f, f ∈ F ↔ p.Free f

/-- The window does not move. -/
theorem step_window (p : Pfa) (op : PfaOp) :
    (p.step op).2.startFrame = p.startFrame ∧ (p.step op).2.totalFrames = p.totalFrames := by
  cases op with
  | alloc => exact ⟨p.pfaAlloc_startFrame, p.pfaAlloc_totalFrames⟩
  | free addr => exact ⟨p.pfaFree_startFrame addr, p.pfaFree_totalFrames addr⟩
  | reserve addr => exact ⟨rfl, rfl⟩

/-- The least free frame is the one that is handed out. -/
theorem Represents.min (h : Represents p F) {f : Nat} (hf : p.Free f)
    (hbelow : ∀ g, p.startFrame ≤ g → g < f → p.used g = true) (hne : F.Nonempty) :
    F.min' hne = f := by
  have hle : F.min' hne ≤ f := F.min'_le f ((h f).2 hf)
  have hmin : p.Free (F.min' hne) := (h _).1 (F.min'_mem hne)
  by_contra hneq
  have hused := hbelow _ hmin.1 (by omega)
  rw [hmin.2.2] at hused
  cases hused

/-- One call on the bitmap is one operation on the set. -/
theorem Represents.step (h : Represents p F) (op : PfaOp) :
    (p.step op).1 = (FrameSet.step p.startFrame p.totalFrames F op).1 ∧
      Represents (p.step op).2 (FrameSet.step p.startFrame p.totalFrames F op).2 := by
  cases op with
  | alloc =>
      rcases p.pfaAlloc_cases with ⟨f, hf, hbelow, hrun⟩ | ⟨hnone, hrun⟩
      · have hne : F.Nonempty := ⟨f, (h f).2 hf⟩
        have hmin := h.min hf hbelow hne
        simp only [Pfa.step, FrameSet.step, hrun, dif_pos hne, hmin]
        refine ⟨trivial, fun g => ?_⟩
        rw [Finset.mem_erase, h g]
        simp only [Free, used_mk_set p f g p.exhausted, Bool.or_eq_false_iff, decide_eq_false_iff_not]
        constructor
        · rintro ⟨hgf, hlo, hhi, hfree⟩
          exact ⟨hlo, hhi, hfree, Ne.symm hgf⟩
        · rintro ⟨hlo, hhi, hfree, hgf⟩
          exact ⟨Ne.symm hgf, hlo, hhi, hfree⟩
      · have hempty : ¬ F.Nonempty := by
          rintro ⟨f, hf⟩
          exact hnone f ((h f).1 hf)
        simp only [Pfa.step, FrameSet.step, hrun, dif_neg hempty]
        exact ⟨trivial, h⟩
  | free addr =>
      refine ⟨rfl, fun g => ?_⟩
      simp only [Pfa.step, FrameSet.step, Free, pfaFree_startFrame, pfaFree_totalFrames,
        used_pfaFree, Bool.and_eq_false_iff, Bool.not_eq_false', decide_eq_true_eq]
      have hg := h g
      simp only [Free] at hg
      by_cases hman : p.startFrame ≤ addr / 4096 ∧ addr / 4096 < p.totalFrames
      · rw [if_pos hman, Finset.mem_insert, hg]
        constructor
        · rintro (rfl | ⟨hlo, hhi, hfree⟩)
          · exact ⟨hman.1, hman.2, .inr ⟨rfl, hman.1, hman.2⟩⟩
          · exact ⟨hlo, hhi, .inl hfree⟩
        · rintro ⟨hlo, hhi, hfree | ⟨rfl, -, -⟩⟩
          · exact .inr ⟨hlo, hhi, hfree⟩
          · exact .inl rfl
      · rw [if_neg hman, hg]
        constructor
        · rintro ⟨hlo, hhi, hfree⟩
          exact ⟨hlo, hhi, .inl hfree⟩
        · rintro ⟨hlo, hhi, hfree | ⟨rfl, -, -⟩⟩
          · exact ⟨hlo, hhi, hfree⟩
          · exact absurd ⟨hlo, hhi⟩ hman
  | reserve addr =>
      refine ⟨rfl, fun g => ?_⟩
      simp only [Pfa.step, FrameSet.step, Finset.mem_erase, h g, Free, used_pfaReserve,
        Bool.or_eq_false_iff, decide_eq_false_iff_not]
      constructor
      · rintro ⟨hga, hlo, hhi, hfree⟩
        exact ⟨hlo, hhi, hfree, Ne.symm hga⟩
      · rintro ⟨hlo, hhi, hfree, hga⟩
        exact ⟨Ne.symm hga, hlo, hhi, hfree⟩

/-- A sequence of calls is a sequence of operations on the set. -/
theorem Represents.run (h : Represents p F) (ops : List PfaOp) :
    (p.run ops).1 = (FrameSet.run p.startFrame p.totalFrames F ops).1 ∧
      Represents (p.run ops).2 (FrameSet.run p.startFrame p.totalFrames F ops).2 := by
  induction ops generalizing p F with
  | nil => exact ⟨rfl, h⟩
  | cons op ops ih =>
      obtain ⟨hres, hrep⟩ := h.step op
      obtain ⟨hlo, hhi⟩ := p.step_window op
      have hrest := ih hrep
      rw [hlo, hhi] at hrest
      simp only [Pfa.run, FrameSet.run]
      exact ⟨congrArg₂ List.cons hres hrest.1, hrest.2⟩

theorem run_window (p : Pfa) (ops : List PfaOp) :
    (p.run ops).2.startFrame = p.startFrame ∧ (p.run ops).2.totalFrames = p.totalFrames := by
  induction ops generalizing p with
  | nil => exact ⟨rfl, rfl⟩
  | cons op ops ih =>
      obtain ⟨hlo, hhi⟩ := ih (p.step op).2
      obtain ⟨hlo', hhi'⟩ := p.step_window op
      exact ⟨hlo.trans hlo', hhi.trans hhi'⟩

/-- After {lit}`pfa_init` the free frames are the managed ones less those of the module. -/
theorem represents_pfaInit (memStart memEnd modStart modEnd : Nat) :
    Represents (pfaInit memStart memEnd modStart modEnd)
      (Finset.Ico (pfaInit memStart memEnd modStart modEnd).startFrame
        (pfaInit memStart memEnd modStart modEnd).totalFrames \ reservedFrames modStart modEnd) := by
  intro f
  have hused := used_pfaInit memStart memEnd modStart modEnd f
  have hloop : f ∈ reservedFrames modStart modEnd ↔
      ∃ i, modStart + 4096 * i < modEnd ∧ (modStart + 4096 * i) / 4096 = f := by
    simp only [reservedFrames, Finset.mem_image, Finset.mem_range]
    constructor
    · rintro ⟨i, hi, hf⟩
      exact ⟨i, by omega, hf⟩
    · rintro ⟨i, hi, hf⟩
      exact ⟨i, by omega, hf⟩
  rw [Finset.mem_sdiff, Finset.mem_Ico, hloop, Free, ← Bool.not_eq_true, hused, not_or, not_not,
    and_assoc]
  constructor
  · rintro ⟨hlo, hhi, hnot⟩
    exact ⟨hlo, hhi, hlo, hhi, hnot⟩
  · rintro ⟨hlo, hhi, -, -, hnot⟩
    exact ⟨hlo, hhi, hnot⟩

/-! ## The bytes of the bitmap -/

/-- The same window, and the same 2048 bytes of the array. -/
structure SameBytes (p q : Pfa) : Prop where
  startFrame : q.startFrame = p.startFrame
  totalFrames : q.totalFrames = p.totalFrames
  bytes : ∀ i, i < 2048 → q.bitmap i = p.bitmap i

theorem SameBytes.used (h : SameBytes p q) {f : Nat} (hf : f < 16384) : q.used f = p.used f := by
  unfold Pfa.used Bitmap.test
  rw [h.bytes _ (by omega)]

theorem SameBytes.findFree (h : SameBytes p q) (n : Nat) {i : Nat} (hi : i + n ≤ 16384) :
    q.findFree n i = p.findFree n i := by
  induction n generalizing i with
  | zero => rfl
  | succ n ih =>
      simp only [Pfa.findFree]
      rw [h.used (show i < 16384 by omega), ih (show i + 1 + n ≤ 16384 by omega)]

/-- Setting or clearing the bit of a frame below 64 MB stays within the array. -/
theorem bytes_update {bm bm' : Bitmap} (h : ∀ i, i < 2048 → bm' i = bm i) {f : Nat}
    (hf : f < 16384) (g : UInt8 → UInt8) :
    (∀ i, i < 2048 → Function.update bm' (f / 8) (g (bm' (f / 8))) i =
        Function.update bm (f / 8) (g (bm (f / 8))) i) ∧
      ∀ i, 2048 ≤ i → Function.update bm' (f / 8) (g (bm' (f / 8))) i = bm' i := by
  constructor
  · intro i hi
    by_cases hif : i = f / 8
    · rw [hif, Function.update_self, Function.update_self, h _ (by omega)]
    · rw [Function.update_of_ne hif, Function.update_of_ne hif, h i hi]
  · intro i hi
    exact Function.update_of_ne (by omega) _ _

/-- A call reads and writes only bytes of the array. -/
theorem SameBytes.step (h : SameBytes p q) (hp : p.totalFrames ≤ 16384) {op : PfaOp}
    (hop : op.InRange) :
    (q.step op).1 = (p.step op).1 ∧ SameBytes (p.step op).2 (q.step op).2 ∧
      ∀ i, 2048 ≤ i → (q.step op).2.bitmap i = q.bitmap i := by
  cases op with
  | alloc =>
      have hfind : q.findFree (q.totalFrames - q.startFrame) q.startFrame =
          p.findFree (p.totalFrames - p.startFrame) p.startFrame := by
        rw [h.startFrame, h.totalFrames]
        by_cases hle : p.startFrame ≤ p.totalFrames
        · exact h.findFree _ (by omega)
        · rw [show p.totalFrames - p.startFrame = 0 by omega]
          rfl
      simp only [Pfa.step, pfaAlloc, hfind]
      cases hf : p.findFree (p.totalFrames - p.startFrame) p.startFrame with
      | none => exact ⟨rfl, ⟨h.startFrame, h.totalFrames, h.bytes⟩, fun _ _ => rfl⟩
      | some f =>
          have hlt : f < 16384 := by
            have := findFree_some hf
            omega
          obtain ⟨hsame, hout⟩ := bytes_update h.bytes hlt (· ||| Bitmap.mask (f % 8))
          exact ⟨rfl, ⟨h.startFrame, h.totalFrames, hsame⟩, hout⟩
  | free addr =>
      have haddr : addr < 2 ^ 26 := hop
      by_cases hout : addr / 4096 < p.startFrame ∨ addr / 4096 ≥ p.totalFrames
      · have hout' : addr / 4096 < q.startFrame ∨ addr / 4096 ≥ q.totalFrames := by
          rw [h.startFrame, h.totalFrames]
          exact hout
        simp only [Pfa.step, pfaFree, if_pos hout, if_pos hout']
        exact ⟨trivial, h, fun _ _ => trivial⟩
      · have hout' : ¬ (addr / 4096 < q.startFrame ∨ addr / 4096 ≥ q.totalFrames) := by
          rw [h.startFrame, h.totalFrames]
          exact hout
        simp only [Pfa.step, pfaFree, if_neg hout, if_neg hout']
        obtain ⟨hsame, hout⟩ := bytes_update h.bytes (show addr / 4096 < 16384 by omega)
          (· &&& ~~~ Bitmap.mask (addr / 4096 % 8))
        exact ⟨trivial, ⟨h.startFrame, h.totalFrames, hsame⟩, hout⟩
  | reserve addr =>
      have haddr : addr < 2 ^ 26 := hop
      obtain ⟨hsame, hout⟩ := bytes_update h.bytes (show addr / 4096 < 16384 by omega)
        (· ||| Bitmap.mask (addr / 4096 % 8))
      exact ⟨rfl, ⟨h.startFrame, h.totalFrames, hsame⟩, hout⟩

/-- A sequence of calls reads and writes only bytes of the array. -/
theorem SameBytes.run (h : SameBytes p q) (hp : p.totalFrames ≤ 16384) {ops : List PfaOp}
    (hops : ∀ op ∈ ops, op.InRange) :
    (q.run ops).1 = (p.run ops).1 ∧ ∀ i, 2048 ≤ i → (q.run ops).2.bitmap i = q.bitmap i := by
  induction ops generalizing p q with
  | nil => exact ⟨rfl, fun _ _ => rfl⟩
  | cons op ops ih =>
      obtain ⟨hres, hsame, hout⟩ := h.step hp (hops op List.mem_cons_self)
      have hp' : (p.step op).2.totalFrames ≤ 16384 := (p.step_window op).2 ▸ hp
      obtain ⟨hrest, hkept⟩ := ih hsame hp' fun o ho => hops o (List.mem_cons_of_mem _ ho)
      simp only [Pfa.run]
      exact ⟨congrArg₂ List.cons hres hrest, fun i hi => (hkept i hi).trans (hout i hi)⟩

/-- Initialisation writes only bytes of the array. -/
theorem pfaInit_bytes {memStart memEnd modStart modEnd : Nat} (hend : memEnd ≤ 2 ^ 26)
    (hmod : modEnd ≤ 2 ^ 26) {i : Nat} (hi : 2048 ≤ i) :
    (pfaInit memStart memEnd modStart modEnd).bitmap i = 0xFF := by
  have hopen : ∀ start, forRange (memEnd / 4096 - start)
      (fun j bm => Bitmap.clear bm (start + j)) (fun _ => 0xFF) i = 0xFF := by
    intro start
    refine forRange_induct (fun _ (bm : Bitmap) => bm i = 0xFF) rfl ?_
    intro j hj bm hbm
    rw [Bitmap.clear, Function.update_of_ne (by omega), hbm]
  have hloop : ∀ p : Pfa, p.bitmap i = 0xFF → (p.reserveRange modStart modEnd).bitmap i = 0xFF := by
    intro p hp
    refine forRange_induct (fun _ (q : Pfa) => q.bitmap i = 0xFF) hp ?_
    intro j hj q hq
    change Function.update q.bitmap _ _ i = 0xFF
    rw [Function.update_of_ne (by omega), hq]
  simp only [pfaInit]
  split
  · exact hloop _ (hopen _)
  · exact hopen _

/-! ## Addresses in hand -/

/-- The addresses in hand are those of distinct frames in use. -/
structure InHand (p : Pfa) (hand : List Nat) : Prop where
  distinct : (hand.map (· / 4096)).Nodup
  used : ∀ a ∈ hand, p.used (a / 4096) = true

theorem InHand.step {hand : List Nat} (h : InHand p hand) (op : PfaOp) :
    InHand (p.step op).2 (held hand op (p.step op).1) := by
  cases op with
  | alloc =>
      rcases p.pfaAlloc_cases with ⟨f, hf, -, hrun⟩ | ⟨-, hrun⟩
      · have hdiv : 4096 * f / 4096 = f := Nat.mul_div_cancel_left _ (by norm_num)
        simp only [Pfa.step, hrun, held]
        split
        · refine ⟨h.distinct, fun a ha => ?_⟩
          rw [used_mk_set p f _ p.exhausted, h.used a ha]
          rfl
        · refine ⟨?_, fun a ha => ?_⟩
          · rw [List.map_cons, List.nodup_cons, hdiv]
            refine ⟨fun hmem => ?_, h.distinct⟩
            obtain ⟨a, ha, haf⟩ := List.mem_map.1 hmem
            have hused := h.used a ha
            rw [haf, hf.2.2] at hused
            cases hused
          · rw [used_mk_set p f _ p.exhausted]
            rcases List.mem_cons.1 ha with rfl | ha
            · simp [hdiv]
            · rw [h.used a ha]
              rfl
      · simp only [Pfa.step, hrun, held, if_true]
        exact ⟨h.distinct, h.used⟩
  | free addr =>
      refine ⟨h.distinct.sublist (List.filter_sublist.map _), fun a ha => ?_⟩
      obtain ⟨ha, hne⟩ := List.mem_filter.1 ha
      change (p.pfaFree addr).used (a / 4096) = true
      rw [used_pfaFree, h.used a ha]
      simp only [decide_eq_true_eq] at hne
      simp [Ne.symm hne]
  | reserve addr =>
      refine ⟨h.distinct, fun a ha => ?_⟩
      change (p.pfaReserve addr).used (a / 4096) = true
      rw [used_pfaReserve, h.used a ha]
      rfl

theorem InHand.outstanding {hand : List Nat} (h : InHand p hand) (ops : List PfaOp) :
    (p.outstanding hand ops).Nodup := by
  induction ops generalizing p hand with
  | nil => exact List.Nodup.of_map _ h.distinct
  | cons op ops ih => exact ih (h.step op)

/-- The frame allocator refines a finite set, from initialisation on. -/
theorem frame_allocator_refines_set (memStart memEnd modStart modEnd : Nat)
    (hend : memEnd ≤ 2 ^ 26) (hmod : modStart < 2 ^ 26 ∧ modEnd ≤ 2 ^ 26)
    (hwrap : memStart + 4095 < 2 ^ 32 ∧ pageAlignUp memStart + 2048 + 4095 < 2 ^ 32)
    (ops : List PfaOp) (hops : ∀ op ∈ ops, op.InRange) :
    let p := pfaInit memStart memEnd modStart modEnd
    let spec := FrameSet.run p.startFrame p.totalFrames
      (Finset.Ico p.startFrame p.totalFrames \ reservedFrames modStart modEnd) ops
    1 ≤ p.startFrame ∧ (p.run ops).1 = spec.1 ∧ Represents (p.run ops).2 spec.2 ∧
      ((p.run ops).2.pfaAlloc.1 = 0 ↔ spec.2 = ∅) ∧
      (∀ i, 2048 ≤ i → p.bitmap i = 0xFF) ∧
      (∀ q, SameBytes p q → (q.run ops).1 = (p.run ops).1 ∧
        ∀ i, 2048 ≤ i → (q.run ops).2.bitmap i = q.bitmap i) ∧
      (p.outstanding [] ops).Nodup := by
  intro p spec
  have hstart : 1 ≤ p.startFrame := by
    change 1 ≤ (pfaInit memStart memEnd modStart modEnd).startFrame
    rw [pfaInit_startFrame]
    simp only [pageAlignUp, u32] at hwrap ⊢
    omega
  have htotal : p.totalFrames ≤ 16384 := by
    change (pfaInit memStart memEnd modStart modEnd).totalFrames ≤ 16384
    rw [pfaInit_totalFrames]
    omega
  obtain ⟨hres, hrep⟩ := (represents_pfaInit memStart memEnd modStart modEnd).run ops
  refine ⟨hstart, hres, hrep, ?_, fun i hi => pfaInit_bytes hend hmod.2 hi,
    fun q hq => hq.run htotal hops, ?_⟩
  · have hlo := (p.run_window ops).1
    rcases (p.run ops).2.pfaAlloc_cases with ⟨f, hf, -, hrun⟩ | ⟨hnone, hrun⟩
    · have hmem : f ∈ spec.2 := (hrep f).2 hf
      have hpos := hf.1
      rw [hrun]
      constructor
      · intro hz
        simp only at hz
        omega
      · intro hempty
        rw [hempty] at hmem
        cases hmem
    · rw [hrun]
      refine ⟨fun _ => ?_, fun _ => rfl⟩
      apply Finset.eq_empty_of_forall_notMem
      intro f hf
      exact hnone f ((hrep f).1 hf)
  · exact InHand.outstanding ⟨by simp, by simp⟩ ops

theorem frame_allocator_refines_set_four_calls :
    ((pfaInit 0x200000 0x4000000 0x300000 0x301000).run
        [.alloc, .free 0x201000, .reserve 0x202000, .alloc]).1 =
      (FrameSet.run (pfaInit 0x200000 0x4000000 0x300000 0x301000).startFrame
        (pfaInit 0x200000 0x4000000 0x300000 0x301000).totalFrames
        (Finset.Ico (pfaInit 0x200000 0x4000000 0x300000 0x301000).startFrame
          (pfaInit 0x200000 0x4000000 0x300000 0x301000).totalFrames \
            reservedFrames 0x300000 0x301000)
        [.alloc, .free 0x201000, .reserve 0x202000, .alloc]).1 :=
  (frame_allocator_refines_set 0x200000 0x4000000 0x300000 0x301000 (by norm_num)
    ⟨by norm_num, by norm_num⟩ ⟨by norm_num, by decide⟩
    [.alloc, .free 0x201000, .reserve 0x202000, .alloc] (by simp [PfaOp.InRange])).2.1

/-! ## Runs that release only what was handed out -/

/-- A run of allocations and releases from {lit}`p₀`, with the addresses returned so far; only
such an address is released. -/
inductive Run (p₀ : Pfa) : List Nat → Pfa → Prop
  | start : Run p₀ [] p₀
  | alloc {out : List Nat} {p : Pfa} (hp : Run p₀ out p) :
      Run p₀ (p.pfaAlloc.1 :: out) p.pfaAlloc.2
  | free {out : List Nat} {p : Pfa} {addr : Nat} (hp : Run p₀ out p) (haddr : addr ∈ out) :
      Run p₀ out (p.pfaFree addr)

/-- What holds along such a run. -/
structure Ran (p₀ : Pfa) (out : List Nat) (p : Pfa) : Prop where
  startFrame : p.startFrame = p₀.startFrame
  totalFrames : p.totalFrames = p₀.totalFrames
  kept : ∀ f, p₀.used f = true → p.used f = true
  fresh : ∀ a ∈ out, a = 0 ∨ ∃ f, a = 4096 * f ∧ p₀.Free f
  taken : ∀ f, p₀.Free f → p.Free f ∨ 4096 * f ∈ out

/-- A frame that is in use at the start of a run is never handed out, and one that was
free is either free or has been handed out. -/
theorem Run.ran {p₀ : Pfa} {out : List Nat} (hpos : 0 < p₀.startFrame) (h : Run p₀ out p) :
    Ran p₀ out p := by
  induction h with
  | start => exact ⟨rfl, rfl, fun _ hf => hf, by simp, fun _ hf => .inl hf⟩
  | @alloc out p hp ih =>
      rcases p.pfaAlloc_cases with ⟨f, hf, -, hrun⟩ | ⟨hnone, hrun⟩
      · rw [hrun]
        have hfree : p₀.Free f := by
          refine ⟨ih.startFrame ▸ hf.1, ih.totalFrames ▸ hf.2.1, ?_⟩
          by_contra hused
          have := ih.kept f (by simpa using hused)
          rw [hf.2.2] at this
          cases this
        refine ⟨ih.startFrame, ih.totalFrames, fun g hg => ?_, fun a ha => ?_, fun g hg => ?_⟩
        · rw [used_mk_set p f g p.exhausted, ih.kept g hg]
          rfl
        · rcases List.mem_cons.1 ha with rfl | ha
          · exact .inr ⟨f, rfl, hfree⟩
          · exact ih.fresh a ha
        · by_cases hgf : g = f
          · exact .inr (hgf ▸ List.mem_cons_self)
          · rcases ih.taken g hg with hg' | hg'
            · refine .inl ⟨hg'.1, hg'.2.1, ?_⟩
              rw [used_mk_set p f g p.exhausted, hg'.2.2]
              simpa using Ne.symm hgf
            · exact .inr (List.mem_cons_of_mem _ hg')
      · rw [hrun]
        refine ⟨ih.startFrame, ih.totalFrames, ih.kept, fun a ha => ?_, fun g hg => ?_⟩
        · rcases List.mem_cons.1 ha with rfl | ha
          · exact .inl rfl
          · exact ih.fresh a ha
        · exact (ih.taken g hg).imp id (List.mem_cons_of_mem _)
  | @free out p addr hp haddr ih =>
      refine ⟨?_, ?_, fun g hg => ?_, ih.fresh, fun g hg => ?_⟩
      · rw [pfaFree_startFrame, ih.startFrame]
      · rw [pfaFree_totalFrames, ih.totalFrames]
      · rw [used_pfaFree, ih.kept g hg, Bool.true_and]
        rw [Bool.not_eq_true', decide_eq_false_iff_not]
        rintro ⟨hag, hlo, -⟩
        -- The address is that of a frame that was free at the start.
        rcases ih.fresh addr haddr with rfl | ⟨f, rfl, hf⟩
        · rw [ih.startFrame] at hlo
          omega
        · rw [Nat.mul_div_cancel_left _ (by norm_num)] at hag
          have hclear := hf.2.2
          rw [hag, hg] at hclear
          cases hclear
      · rcases ih.taken g hg with hg' | hg'
        · refine .inl ⟨?_, ?_, ?_⟩
          · rw [pfaFree_startFrame]
            exact hg'.1
          · rw [pfaFree_totalFrames]
            exact hg'.2.1
          · rw [used_pfaFree, hg'.2.2]
            rfl
        · exact .inr hg'

end Pfa

end SoKernel
