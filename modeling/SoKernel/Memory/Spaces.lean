import SoKernel.Memory.HeapSafety
import SoKernel.Memory.SpaceBuilding

/-!
# All address spaces together

The memory of the kernel holds one address space for each process.  This module has
the invariant of a list of spaces: each is well formed, no frame is in two of them,
and none has a frame that the kernel keeps for itself.  Each operation on memory
either keeps the list, adds a space to it or takes one out.

Main results:

- Theorem {lit}`Spaces.built`: a construction that succeeds adds its space.
- Theorem {lit}`Spaces.restored`: one that is given up changes nothing.
- Theorem {lit}`Spaces.destroy`: a release takes its space out and frees its frames.
- Theorem {lit}`Spaces.write`: a write to a page of one space keeps them all.
-/

namespace SoKernel

namespace Memory

/-- A space is kept when its frames and frame 0 are. -/
theorem Space.keep {m : Memory} {d : Nat} (h : Space m d) (m' : Memory)
    (hphys : ∀ f, Owns (m.slots d) f ∨ f = 0 → ByteMemory.BlockEq m.phys m'.phys f)
    (hdir : m'.pageDirectory = m.pageDirectory)
    (hused : ∀ f, Owns (m.slots d) f → m'.pfa.used f = true ∧ m'.Managed f) :
    Space m' d ∧ m'.slots d = m.slots d := by
  have howns : Owns (m.slots d) d := ⟨h.dir_ne, .dir, rfl⟩
  have hd := hphys d (.inl howns)
  have hslots : m'.slots d = m.slots d := by
    refine slotFrame_congr hd fun i t ht => hphys t ?_
    by_cases ht0 : t = 0
    · exact .inr ht0
    · exact .inl ⟨ht0, .table i, ht⟩
  refine ⟨⟨h.dir_ne, ?_, fun i hlo hhi => ?_, ?_, ?_, ?_⟩, hslots⟩
  · rw [hdir, ← h.kernel]
    exact (hd.word (by norm_num)).symm
  · rw [← h.high i hlo hhi]
    exact (hd.word hhi).symm
  · rw [hslots]
    exact hused
  · rw [hslots]
    exact h.separate
  · rw [hslots]
    intro hz j hj hodd
    have hword := (hphys 0 (.inr rfl)).word hj
    rw [← hword] at hodd ⊢
    exact h.zero hz j hj hodd

/-- A frame that is free after the heap has grown was free before. -/
theorem free_of_grown {m m' : Memory} {lo : Nat} (hg : MemGrown m m' lo) {f : Nat}
    (hf : m'.pfa.Free f) : m.pfa.Free f := by
  refine ⟨hg.startFrame ▸ hf.1, hg.totalFrames ▸ hf.2.1, ?_⟩
  by_contra hused
  have := hg.keeps f (by simpa using hused)
  simp [hf.2.2] at this

/-- The spaces with directories {lit}`ds` beside each other and beside the frames
{lit}`F` that the kernel keeps; when {lit}`safe` holds, no slot has frame 0. -/
structure Spaces (F : Nat → Prop) (safe : Prop) (m : Memory) (ds : List Nat) : Prop where
  ok : MemOk m
  pde : m.pageDirectory 768 < 2 ^ 32 ∧ m.pageDirectory 768 % 8 = 3
  space : ∀ d ∈ ds, Space m d
  apart : ds.Pairwise fun d d' => ∀ f, Owns (m.slots d) f → ¬ Owns (m.slots d') f
  kept : ∀ f, F f → m.pfa.used f = true ∧ ∀ d ∈ ds, ¬ Owns (m.slots d) f
  filled : safe → ∀ d ∈ ds, ∀ s, m.slots d s ≠ some 0

section Spaces

variable {F F' : Nat → Prop} {safe : Prop} {m m' : Memory} {d : Nat} {ds : List Nat}

theorem Spaces.perm (h : Spaces F safe m ds) {ds' : List Nat} (hperm : ds.Perm ds') :
    Spaces F safe m ds' := by
  refine ⟨h.ok, h.pde, fun d hd => h.space d (hperm.mem_iff.2 hd), ?_, fun f hf => ?_,
    fun hs d hd => h.filled hs d (hperm.mem_iff.2 hd)⟩
  · refine (hperm.pairwise_iff ?_).1 h.apart
    intro d d' hdd f hf hf'
    exact hdd f hf' hf
  · exact ⟨(h.kept f hf).1, fun d hd => (h.kept f hf).2 d (hperm.mem_iff.2 hd)⟩

/-- An owned frame is in use, so it is neither free nor frame 0. -/
theorem Spaces.owned (h : Spaces F safe m ds) (hd : d ∈ ds) {f : Nat}
    (hf : Owns (m.slots d) f) : m.pfa.used f = true ∧ m.Managed f ∧ ¬ m.pfa.Free f := by
  obtain ⟨hused, hman⟩ := (h.space d hd).used f hf
  refine ⟨hused, hman, fun hfree => ?_⟩
  rw [hfree.2.2] at hused
  cases hused

theorem Spaces.dir_owned (h : Spaces F safe m ds) (hd : d ∈ ds) : Owns (m.slots d) d :=
  ⟨(h.space d hd).dir_ne, .dir, rfl⟩

/-- The frames of a space, frame 0 included, are not free. -/
theorem Spaces.not_free (h : Spaces F safe m ds) (hd : d ∈ ds) {f : Nat}
    (hf : Owns (m.slots d) f ∨ f = 0) : ¬ m.pfa.Free f := by
  rcases hf with hf | rfl
  · exact (h.owned hd hf).2.2
  · intro hfree
    exact (h.ok.managed (Free.managed hfree)).1 rfl

/-- The spaces of a part of the list. -/
theorem Spaces.tail (h : Spaces F safe m (d :: ds)) : Spaces F safe m ds :=
  ⟨h.ok, h.pde, fun d' hd' => h.space d' (List.mem_cons_of_mem _ hd'),
    (List.pairwise_cons.1 h.apart).2,
    fun f hf => ⟨(h.kept f hf).1, fun d' hd' => (h.kept f hf).2 d' (List.mem_cons_of_mem _ hd')⟩,
    fun hs d' hd' => h.filled hs d' (List.mem_cons_of_mem _ hd')⟩

/-- Two spaces of the list share no frame. -/
theorem Spaces.disjoint (h : Spaces F safe m ds) {d d' : Nat} (hd : d ∈ ds) (hd' : d' ∈ ds)
    (hne : d ≠ d') {f : Nat} (hf : Owns (m.slots d) f) : ¬ Owns (m.slots d') f := by
  have hsymm : Std.Symm fun d d' => ∀ f, Owns (m.slots d) f → ¬ Owns (m.slots d') f :=
    ⟨fun a b hab f hf hf' => hab f hf' hf⟩
  exact h.apart.forall hd hd' hne f hf

/-- When every space of the list keeps its slots, the list keeps its invariant. -/
theorem Spaces.keep (h : Spaces F safe m ds) (hok : MemOk m')
    (hphys : ∀ d ∈ ds, ∀ f, Owns (m.slots d) f ∨ f = 0 →
      ByteMemory.BlockEq m.phys m'.phys f)
    (hdir : m'.pageDirectory = m.pageDirectory)
    (hused : ∀ d ∈ ds, ∀ f, Owns (m.slots d) f → m'.pfa.used f = true ∧ m'.Managed f)
    (hkept : ∀ f, F' f → m'.pfa.used f = true ∧ ∀ d ∈ ds, ¬ Owns (m.slots d) f) :
    Spaces F' safe m' ds ∧ ∀ d ∈ ds, m'.slots d = m.slots d := by
  have hspace := fun d hd =>
    (h.space d hd).keep m' (hphys d hd) hdir (hused d hd)
  have hslots : ∀ d ∈ ds, m'.slots d = m.slots d := fun d hd => (hspace d hd).2
  refine ⟨⟨hok, hdir ▸ h.pde, fun d hd => (hspace d hd).1, ?_, fun f hf => ?_,
    fun hs d hd => ?_⟩, hslots⟩
  · refine h.apart.imp_of_mem fun {a b} ha hb hab f => ?_
    rw [hslots a ha, hslots b hb]
    exact hab f
  · refine ⟨(hkept f hf).1, fun d hd => ?_⟩
    rw [hslots d hd]
    exact (hkept f hf).2 d hd
  · rw [hslots d hd]
    exact h.filled hs d hd

/-- The heap takes free frames for its pages. -/
theorem Spaces.grow {lo : Nat} (h : Spaces F safe m ds) (hg : MemGrown m m' lo)
    (hF : ∀ f, F' f → F f ∨ m.pfa.Free f ∧ m'.pfa.used f = true) :
    Spaces F' safe m' ds ∧ ∀ d ∈ ds, m'.slots d = m.slots d := by
  have hclosed : m'.WindowClosed := by
    rcases hg.maps 1023 with hsame | ⟨-, hlt, -⟩
    · rw [WindowClosed, hsame]
      exact h.ok.closed
    · omega
  have hok : MemOk m' :=
    ⟨hclosed, hg.startFrame ▸ h.ok.window.1, hg.totalFrames ▸ h.ok.window.2⟩
  refine h.keep hok (fun d _ f _ => ?_) hg.pageDirectory (fun d hd f hf => ?_) fun f hf => ?_
  · rw [hg.phys]
    exact ByteMemory.BlockEq.refl _ _
  · obtain ⟨hused, hman, -⟩ := h.owned hd hf
    exact ⟨hg.keeps f hused, hg.startFrame ▸ hman.1, hg.totalFrames ▸ hman.2⟩
  · rcases hF f hf with hf | ⟨hfree, hused⟩
    · exact ⟨hg.keeps f (h.kept f hf).1, (h.kept f hf).2⟩
    · exact ⟨hused, fun d hd howns => (h.owned hd howns).2.2 hfree⟩

/-- A construction that was given up changes nothing. -/
theorem Spaces.restored (h : Spaces F safe m ds) (hr : Restored m m') :
    Spaces F safe m' ds ∧ ∀ d ∈ ds, m'.slots d = m.slots d := by
  refine h.keep (h.ok.same hr.same) (fun d hd f hf => hr.phys f (h.not_free hd hf))
    hr.same.pageDirectory (fun d hd f hf => ?_) fun f hf => ?_
  · obtain ⟨hused, hman, -⟩ := h.owned hd hf
    exact ⟨by rw [hr.used]; exact hused, hr.same.startFrame ▸ hman.1,
      hr.same.totalFrames ▸ hman.2⟩
  · rw [hr.used]
    exact h.kept f hf

/-- A construction that is complete adds its space. -/
theorem Spaces.built (h : Spaces F safe m ds) (hb : Built m m' d []) :
    Spaces F safe m' (d :: ds) ∧ ∀ d' ∈ ds, m'.slots d' = m.slots d' := by
  have hused : ∀ f, m.pfa.used f = true → m'.pfa.used f = true :=
    fun f hf => (hb.used f).2 (.inl hf)
  obtain ⟨hrest, hslots⟩ : Spaces F safe m' ds ∧ ∀ d' ∈ ds, m'.slots d' = m.slots d' := h.keep hb.ok
    (fun d' hd' f hf => hb.phys f (h.not_free hd' hf)) hb.same.pageDirectory
    (fun d' hd' f hf => by
      obtain ⟨hu, hman, -⟩ := h.owned hd' hf
      exact ⟨hused f hu, hb.same.startFrame ▸ hman.1, hb.same.totalFrames ▸ hman.2⟩)
    (fun f hf => ⟨hused f (h.kept f hf).1, (h.kept f hf).2⟩)
  -- The frames of the new space were free, so nobody had them.
  have hnew : ∀ f, Owns (m'.slots d) f → m.pfa.used f = false := fun f hf => (hb.fresh f hf).2.2
  have hspace : Space m' d := by
    refine ⟨hb.dir_owned.1, hb.kernel, hb.high, fun f hf => ⟨(hb.used f).2 (.inr (.inl hf)), ?_⟩,
      hb.separate, ?_⟩
    · have hfree := hb.fresh f hf
      exact ⟨hb.same.startFrame ▸ hfree.1, hb.same.totalFrames ▸ hfree.2.1⟩
    · rintro ⟨i, hi⟩
      exact absurd hi (hb.filled _)
  refine ⟨⟨hb.ok, hrest.pde, fun d' hd' => ?_, List.pairwise_cons.2 ⟨fun d' hd' f hf hf' => ?_,
    hrest.apart⟩, fun f hf => ⟨(hrest.kept f hf).1, fun d' hd' => ?_⟩, fun hs d' hd' => ?_⟩, hslots⟩
  · rcases List.mem_cons.1 hd' with rfl | hd'
    · exact hspace
    · exact hrest.space d' hd'
  · rw [hslots d' hd'] at hf'
    have hfalse := hnew f hf
    rw [(h.owned hd' hf').1] at hfalse
    cases hfalse
  · rcases List.mem_cons.1 hd' with rfl | hd'
    · intro hf'
      have hfalse := hnew f hf'
      rw [(h.kept f hf).1] at hfalse
      cases hfalse
    · exact (hrest.kept f hf).2 d' hd'
  · rcases List.mem_cons.1 hd' with rfl | hd'
    · exact hb.filled
    · exact hrest.filled hs d' hd'

/-- A release takes its space out of the list and frees its frames. -/
theorem Spaces.destroy (h : Spaces F safe m (d :: ds)) :
    ∃ (p : Pfa) (phys : ByteMemory),
      m.destroyUserSpace (4096 * d) = { m with
        pfa := p
        phys := phys
        destroyedLoaded := m.destroyedLoaded || decide (4096 * d = m.cr3) } ∧
      p.startFrame = m.pfa.startFrame ∧ p.totalFrames = m.pfa.totalFrames ∧
      (∀ f, f ≠ d → ByteMemory.BlockEq m.phys phys f) ∧
      (∀ g, p.used g = true ↔ m.pfa.used g = true ∧ ¬ Owns (m.slots d) g) ∧
      Spaces F safe (m.destroyUserSpace (4096 * d)) ds ∧
      ∀ d' ∈ ds, (m.destroyUserSpace (4096 * d)).slots d' = m.slots d' := by
  have hspace := h.space d List.mem_cons_self
  have hman := fun f hf => (hspace.used f hf).2
  have hd := h.ok.managed (hman d (h.dir_owned List.mem_cons_self))
  obtain ⟨p, phys, hres, hstart, htotal, -, hphys, hused⟩ :=
    destroyUserSpace_spec h.ok hd.1 hd.2 hspace.separate hman
  have hapart := (List.pairwise_cons.1 h.apart).1
  have htail := h.tail
  refine ⟨p, phys, hres, hstart, htotal, hphys, hused, ?_⟩
  rw [hres]
  refine htail.keep ⟨h.ok.closed, hstart ▸ h.ok.window.1, htotal ▸ h.ok.window.2⟩
    (fun d' hd' f hf => hphys f ?_) rfl (fun d' hd' f hf => ?_) fun f hf => ?_
  · rintro rfl
    rcases hf with hf | rfl
    · exact hapart d' hd' f (h.dir_owned List.mem_cons_self) hf
    · exact hd.1 rfl
  · obtain ⟨hu, hm, -⟩ := htail.owned hd' hf
    exact ⟨(hused f).2 ⟨hu, fun ho => hapart d' hd' f ho hf⟩, hstart ▸ hm.1, htotal ▸ hm.2⟩
  · obtain ⟨hu, hno⟩ := h.kept f hf
    exact ⟨(hused f).2 ⟨hu, hno d List.mem_cons_self⟩,
      fun d' hd' => hno d' (List.mem_cons_of_mem _ hd')⟩

open Classical in
/-- The number of frames of a space. -/
noncomputable def ownedCount (m : Memory) (d : Nat) : Nat :=
  ((Finset.Ico m.pfa.startFrame m.pfa.totalFrames).filter fun f => Owns (m.slots d) f).card

open Classical in
/-- A release gives back the frames of its space. -/
theorem Spaces.freeCount_destroy (h : Spaces F safe m (d :: ds)) :
    (m.destroyUserSpace (4096 * d)).pfa.freeCount = m.pfa.freeCount + m.ownedCount d := by
  obtain ⟨p, phys, hres, hstart, htotal, -, hused, -⟩ := h.destroy
  rw [hres]
  refine Pfa.freeCount_release hstart htotal (fun f hf => ?_) fun f => ?_
  · rw [Finset.mem_filter, Finset.mem_Ico] at hf
    exact ⟨hf.1.1, hf.1.2, (h.owned List.mem_cons_self hf.2).1⟩
  · rw [hused f, Finset.mem_filter, Finset.mem_Ico]
    refine and_congr_right fun _ => not_congr ⟨fun howns => ?_, And.right⟩
    exact ⟨(h.owned List.mem_cons_self howns).2.1, howns⟩

open Classical in
/-- A space has as many frames as can be listed. -/
theorem Spaces.length_le_ownedCount (h : Spaces F safe m ds) (hd : d ∈ ds) {fs : List Nat}
    (hnodup : fs.Nodup) (howns : ∀ f ∈ fs, Owns (m.slots d) f) : fs.length ≤ m.ownedCount d := by
  rw [← List.toFinset_card_of_nodup hnodup]
  refine Finset.card_le_card fun f hf => ?_
  have hf' := howns f (List.mem_toFinset.1 hf)
  rw [Finset.mem_filter, Finset.mem_Ico]
  exact ⟨(h.owned hd hf').2.1, hf'⟩

open Classical in
/-- A construction takes the frames of its space. -/
theorem Built.freeCount_add (hb : Built m m' d []) :
    m'.pfa.freeCount + m'.ownedCount d = m.pfa.freeCount := by
  refine (Pfa.freeCount_release hb.same.startFrame.symm hb.same.totalFrames.symm
    (fun f hf => ?_) fun f => ?_).symm
  · rw [Finset.mem_filter, Finset.mem_Ico] at hf
    exact ⟨hf.1.1, hf.1.2, (hb.used f).2 (.inr (.inl hf.2))⟩
  · rw [hb.used f, Finset.mem_filter, Finset.mem_Ico]
    constructor
    · refine fun hold => ⟨.inl hold, fun hmem => ?_⟩
      rw [(hb.fresh f hmem.2).2.2] at hold
      cases hold
    · rintro ⟨hold | howns | hnil, hno⟩
      · exact hold
      · have hfree := hb.fresh f howns
        rw [hb.same.startFrame, hb.same.totalFrames] at hno
        exact absurd ⟨⟨hfree.1, hfree.2.1⟩, howns⟩ hno
      · cases hnil

/-- Heap growth leaves the frames of a space alone. -/
theorem ownedCount_grown {lo : Nat} (hg : MemGrown m m' lo) (d : Nat) :
    m'.ownedCount d = m.ownedCount d := by
  unfold ownedCount slots
  rw [hg.startFrame, hg.totalFrames, hg.phys]

/-- Loading another directory into {lit}`cr3`. -/
theorem Spaces.updateCr3 (h : Spaces F safe m ds) (pdt : Nat) :
    Spaces F safe (m.updateCr3 pdt) ds :=
  ⟨⟨h.ok.closed, h.ok.window⟩, h.pde, fun d hd => ⟨(h.space d hd).dir_ne, (h.space d hd).kernel,
    (h.space d hd).high, (h.space d hd).used, (h.space d hd).separate, (h.space d hd).zero⟩,
    h.apart, h.kept, h.filled⟩

/-- A write to a page of one space keeps every space. -/
theorem Spaces.write (h : Spaces F safe m ds) (hd : d ∈ ds) {i j f : Nat} {phys : ByteMemory}
    (hslot : m.slots d (.page i j) = some f) (hf : f ≠ 0)
    (hwrite : ∀ g, g ≠ f → ByteMemory.BlockEq m.phys phys g) :
    Spaces F safe { m with phys := phys } ds ∧
      ∀ d' ∈ ds, ({ m with phys := phys } : Memory).slots d' = m.slots d' := by
  have howns : Owns (m.slots d) f := ⟨hf, .page i j, hslot⟩
  -- The frame is a page of its own space only: neither a directory nor a table.
  have hother : ∀ d' ∈ ds, ∀ s, (∀ a b, s ≠ .page a b) → m.slots d' s ≠ some f := by
    intro d' hd' s hs hsf
    by_cases hdd : d = d'
    · subst hdd
      exact hs i j ((h.space d hd).separate s (.page i j) f hf hsf hslot)
    · exact h.disjoint hd hd' hdd howns ⟨hf, s, hsf⟩
  have hslots : ∀ d' ∈ ds, ({ m with phys := phys } : Memory).slots d' = m.slots d' := by
    intro d' hd'
    refine slotFrame_congr (hwrite d' ?_) fun a t ht => hwrite t ?_
    · rintro rfl
      exact hother d' hd' .dir (by simp) rfl
    · rintro rfl
      exact hother d' hd' (.table a) (by simp) ht
  have hdir : ∀ d' ∈ ds, ByteMemory.BlockEq m.phys phys d' := by
    intro d' hd'
    refine hwrite d' ?_
    rintro rfl
    exact hother d' hd' .dir (by simp) rfl
  refine ⟨⟨⟨h.ok.closed, h.ok.window⟩, h.pde, fun d' hd' => ?_, ?_, fun g hg => ⟨(h.kept g hg).1, ?_⟩,
    fun hs d' hd' => ?_⟩, hslots⟩
  · have hspace := h.space d' hd'
    refine ⟨hspace.dir_ne, ?_, fun a hlo hhi => ?_, ?_, ?_, ?_⟩
    · exact ((hdir d' hd').word (by norm_num)).symm.trans hspace.kernel
    · exact ((hdir d' hd').word hhi).symm.trans (hspace.high a hlo hhi)
    · rw [hslots d' hd']
      exact hspace.used
    · rw [hslots d' hd']
      exact hspace.separate
    · rw [hslots d' hd']
      intro hz a ha hodd
      have hword := (hwrite 0 hf.symm).word ha
      simp only at hodd ⊢
      rw [← hword] at hodd ⊢
      exact hspace.zero hz a ha hodd
  · refine h.apart.imp_of_mem fun {a b} ha hb hab g => ?_
    rw [hslots a ha, hslots b hb]
    exact hab g
  · intro d' hd'
    rw [hslots d' hd']
    exact (h.kept g hg).2 d' hd'
  · rw [hslots d' hd']
    exact h.filled hs d' hd'

end Spaces

end Memory

end SoKernel
