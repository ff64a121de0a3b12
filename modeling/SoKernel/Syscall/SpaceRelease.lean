import SoKernel.Kernel.BootInvariant

/-!
# The release of an address space

{lit}`destroy_user_space` walks a directory and its tables through the temporary window and
gives back every frame it meets, the frames it is walking over included.

Its calls of {lit}`pfa_free` are instrumented here.  {lit}`destroyLogged` runs the same loops
and keeps the addresses that were released, in order.

Main results:

- Theorem {lit}`destroyLogged_fst`: without its list, the instrumented release is the release.
- Theorem {lit}`destroyLogged_snd`: the list has the frames of the slots, in the order of the
  slots.
- Theorem {lit}`destroy_exact`: a well-formed space gives back each of its frames once and
  nothing else, and a space that was just built gives the allocator back its bitmap.
-/

namespace SoKernel

namespace Memory

/-! ## The calls of pfa_free -/

/-- {lit}`pfa_free` of an address, which is added to the list. -/
def freeLogged (s : Memory × List Nat) (pageAddr : Nat) : Memory × List Nat :=
  (s.1.pfaFree pageAddr, s.2 ++ [pageAddr])

/-- {lit}`destroyTable` with the list. -/
def destroyTableLogged (s : Memory × List Nat) (p : WindowPtr) : Memory × List Nat :=
  forRange 1024 (fun ptIndex s =>
    let (pte, m) := s.1.readWord p ptIndex
    if present pte then
      let (pte, m) := m.readWord p ptIndex
      freeLogged (m, s.2) (frameBits pte)
    else (m, s.2)) s

/-- {lit}`destroyEntry` with the list. -/
def destroyEntryLogged (pdtPhys pdIndex : Nat) (s : Memory × List Nat) : Memory × List Nat :=
  if pdIndex = 768 then s
  else
    let (pde, m) := s.1.peekWord pdtPhys pdIndex
    if present pde = false then (m, s.2)
    else
      let ptPhys := frameBits pde
      let (p, m) := m.pagingTempMap ptPhys
      let s := destroyTableLogged (m, s.2) p
      let s := freeLogged (s.1.pagingTempUnmap, s.2) ptPhys
      (s.1.pokeWord pdtPhys pdIndex 0, s.2)

/-- {lit}`destroyUserSpace` with the list of the addresses it releases, in order. -/
def destroyLogged (m : Memory) (pdtPhys : Nat) : Memory × List Nat :=
  if pdtPhys = 0 then (m, [])
  else
    let m := { m with destroyedLoaded := m.destroyedLoaded || decide (pdtPhys = m.cr3) }
    freeLogged (forRange 1024 (destroyEntryLogged pdtPhys) (m, [])) pdtPhys

theorem destroyTableLogged_fst (s : Memory × List Nat) (p : WindowPtr) :
    (destroyTableLogged s p).1 = s.1.destroyTable p := by
  unfold destroyTableLogged destroyTable
  generalize 1024 = n
  refine forRange_map Prod.fst (fun j s => ?_) s
  dsimp only
  split
  · rfl
  · rfl

theorem destroyEntryLogged_fst (pdtPhys pdIndex : Nat) (s : Memory × List Nat) :
    (destroyEntryLogged pdtPhys pdIndex s).1 = destroyEntry pdtPhys pdIndex s.1 := by
  unfold destroyEntryLogged destroyEntry
  split
  · rfl
  · cases s.1.peekWord pdtPhys pdIndex with
    | mk pde m =>
        dsimp only
        split
        · rfl
        · cases m.pagingTempMap (frameBits pde) with
          | mk p m' =>
              have htable := destroyTableLogged_fst (m', s.2) p
              dsimp only at htable ⊢
              rw [← htable]
              generalize destroyTableLogged (m', s.2) p = r
              rfl

/-- Without its list, the instrumented release is the release. -/
theorem destroyLogged_fst (m : Memory) (pdtPhys : Nat) :
    (m.destroyLogged pdtPhys).1 = m.destroyUserSpace pdtPhys := by
  unfold destroyLogged destroyUserSpace
  split
  · rfl
  · exact congrArg (fun m : Memory => m.pfaFree pdtPhys)
      (forRange_map Prod.fst (destroyEntryLogged_fst pdtPhys) _)

section Release

variable {m mm : Memory} {d i : Nat}

/-- The address of the frame in a slot. -/
def slotAddr (m : Memory) (d : Nat) (s : Slot) : Option Nat :=
  (m.slots d s).map (4096 * ·)

/-- The loop over a table releases the frames of its entries in their order. -/
theorem destroyTableLogged_snd (m : Memory) (log : List Nat) {t : Nat} (ht : t < 2 ^ 20) :
    (destroyTableLogged (m.opened t, log) ⟨4096 * t⟩).2 = log ++
      (List.range 1024).filterMap fun j => (entryFrame (m.phys.word t j)).map (4096 * ·) := by
  -- The allocator changes as the loop goes on; the table does not.
  suffices hloop : ∃ p : Pfa, destroyTableLogged (m.opened t, log) ⟨4096 * t⟩ =
      (({ m with pfa := p } : Memory).opened t, log ++ (List.range 1024).filterMap fun j =>
        (entryFrame (m.phys.word t j)).map (4096 * ·)) by
    obtain ⟨p, hp⟩ := hloop
    rw [hp]
  refine forRange_induct (fun n (s : Memory × List Nat) => ∃ p : Pfa,
    s = (({ m with pfa := p } : Memory).opened t, log ++ (List.range n).filterMap fun j =>
      (entryFrame (m.phys.word t j)).map (4096 * ·))) ⟨m.pfa, by simp⟩ ?_
  rintro j - s ⟨p, rfl⟩
  have hread : (({ m with pfa := p } : Memory).opened t).readWord ⟨4096 * t⟩ j =
      (m.phys.word t j, ({ m with pfa := p } : Memory).opened t) := by
    simp only [readWord, opened_touch, opened_windowBase _ ht]
    rfl
  simp only [hread, present_eq, decide_eq_true_eq]
  rw [List.range_succ, List.filterMap_append]
  by_cases hodd : m.phys.word t j % 2 = 1
  · rw [if_pos hodd]
    refine ⟨p.pfaFree (frameBits (m.phys.word t j)), ?_⟩
    simp only [freeLogged, frameBits_word, List.filterMap_cons, List.filterMap_nil,
      entryFrame_of_odd hodd, Option.map_some, List.append_assoc]
    rfl
  · rw [if_neg hodd]
    refine ⟨p, ?_⟩
    simp only [List.filterMap_cons, List.filterMap_nil, entryFrame, if_neg hodd, Option.map_none,
      List.append_nil]

/-- A pass over an entry with a table adds what the table adds, and the table. -/
theorem destroyEntryLogged_table {pdtPhys pdIndex pde : Nat} {s r : Memory × List Nat}
    {m m' : Memory} {p : WindowPtr} (hindex : pdIndex ≠ 768)
    (hpeek : s.1.peekWord pdtPhys pdIndex = (pde, m)) (hpresent : present pde = true)
    (hmap : m.pagingTempMap (frameBits pde) = (p, m'))
    (htable : destroyTableLogged (m', s.2) p = r) :
    (destroyEntryLogged pdtPhys pdIndex s).2 = r.2 ++ [frameBits pde] := by
  rw [destroyEntryLogged, if_neg hindex, hpeek]
  simp only [hpresent, hmap, htable, Bool.true_eq_false, if_false]
  rfl

/-- One pass of the loop over the directory releases the frames behind its entry. -/
theorem Destroying.log (h : Destroying m d i mm) (hok : MemOk m) (hd : d ≠ 0) (hd20 : d < 2 ^ 20)
    (hsep : Separate (m.slots d)) (hi : i < 1024) (log : List Nat) :
    (destroyEntryLogged (4096 * d) i (mm, log)).2 =
      log ++ (entrySlots i).filterMap (m.slotAddr d) := by
  have hclosed : mm.WindowClosed := by
    rw [WindowClosed, h.rest]
    exact hok.closed
  have hword : mm.phys.word d i = m.phys.word d i := h.ahead i le_rfl hi
  -- An entry without a table has no filled slot.
  have hnone : m.slots d (.table i) = none →
      (entrySlots i).filterMap (m.slotAddr d) = [] := by
    intro htable
    refine List.filterMap_eq_nil_iff.2 fun s hs => ?_
    rw [slotAddr]
    rcases mem_entrySlots.1 hs with rfl | ⟨j, -, rfl⟩
    · rw [htable]
      rfl
    · rw [slots, slotFrame_page_none htable]
      rfl
  have hpeek : mm.peekWord (4096 * d) i = (m.phys.word d i, mm) := by
    rw [peekWord_eq hclosed hd20 i, hword]
  by_cases hkernel : i = 768
  · rw [destroyEntryLogged, if_pos hkernel, hnone, List.append_nil]
    simp [slots, slotFrame, hkernel]
  by_cases hodd : m.phys.word d i % 2 = 1
  · have htable : m.slots d (.table i) = some (m.phys.word d i / 4096) := by
      rw [slots, slotFrame_table hi hkernel, entryFrame_of_odd hodd]
    have hpresent : present (m.phys.word d i) = true := by
      rw [present_eq]
      exact decide_eq_true hodd
    have ht20 := word_frame_lt m.phys d i
    have hmap := pagingTempMap_eq mm ht20
    rw [← frameBits_word] at hmap
    rw [destroyEntryLogged_table hkernel hpeek hpresent hmap rfl, frameBits_word,
      destroyTableLogged_snd mm log ht20]
    generalize m.phys.word d i / 4096 = t at htable
    have htd : t ≠ d := by
      rintro rfl
      cases hsep (.table i) .dir t hd htable rfl
    have hpages : (List.range 1024).filterMap (fun j => m.slotAddr d (.page i j)) =
        (List.range 1024).filterMap fun j => (entryFrame (mm.phys.word t j)).map (4096 * ·) := by
      refine List.filterMap_congr fun j hj => ?_
      rw [slotAddr, slots, slotFrame_page htable (List.mem_range.1 hj),
        (h.phys t htd).word (List.mem_range.1 hj)]
    rw [filterMap_entrySlots, hpages, slotAddr, htable, Option.map_some, Option.toList_some,
      List.append_assoc]
  · have hpresent : present (m.phys.word d i) = false := by
      rw [present_eq]
      exact decide_eq_false hodd
    rw [destroyEntryLogged, if_neg hkernel, hpeek, hnone, List.append_nil]
    · simp only [hpresent, if_true]
    · rw [slots, slotFrame_table hi hkernel, entryFrame, if_neg hodd]

/-- A release gives back the frames of the slots, in the order of the slots. -/
theorem destroyLogged_snd (hok : MemOk m) (hd : d ≠ 0) (hd20 : d < 2 ^ 20)
    (hsep : Separate (m.slots d)) :
    (m.destroyLogged (4096 * d)).2 = slotOrder.filterMap (m.slotAddr d) := by
  generalize hm₁ : ({ m with destroyedLoaded := m.destroyedLoaded || decide (4096 * d = m.cr3) } :
    Memory) = m₁
  have hok₁ : MemOk m₁ := by
    subst hm₁
    exact ⟨hok.closed, hok.window⟩
  have hslots : m₁.slots d = m.slots d := by
    subst hm₁
    rfl
  have haddr : m₁.slotAddr d = m.slotAddr d := by
    funext s
    rw [slotAddr, hslots, slotAddr]
  have hloop := @forRange_induct _ 1024 (destroyEntryLogged (4096 * d)) (m₁, [])
    (fun i s => Destroying m₁ d i s.1 ∧
      s.2 = ((List.range i).flatMap entrySlots).filterMap (m₁.slotAddr d))
    ⟨⟨rfl, rfl, rfl, rfl, fun _ _ => ByteMemory.BlockEq.refl _ _, fun _ _ _ => rfl,
      fun g => by simp [ReleasedBelow]⟩, rfl⟩ ?_
  · rw [destroyLogged, if_neg (by omega)]
    simp only [hm₁, freeLogged, hloop.2, slotOrder, List.filterMap_append, haddr]
    rfl
  · rintro i hi ⟨mm, log⟩ ⟨hdestroying, hlog⟩
    simp only at hdestroying hlog
    refine ⟨?_, ?_⟩
    · rw [destroyEntryLogged_fst]
      exact hdestroying.step hok₁ hd hd20 (hslots ▸ hsep) hi
    · rw [hdestroying.log hok₁ hd hd20 (hslots ▸ hsep) hi, hlog, List.range_succ,
        List.flatMap_append, List.filterMap_append, List.flatMap_singleton]

/-! ## Exactness -/

/-- A well-formed address space: the kernel's entry is shared, the entries above it are
absent, and the frames of the directory, the tables and the pages are allocated and
distinct. -/
structure WellFormed (m : Memory) (d : Nat) : Prop where
  kernel : m.phys.word d 768 = m.pageDirectory 768
  high : ∀ i, 768 < i → i < 1024 → present (m.phys.word d i) = false
  allocated : ∀ s f, m.slots d s = some f → m.pfa.used f = true ∧ m.Managed f
  distinct : ∀ s s' f, m.slots d s = some f → m.slots d s' = some f → s = s'

/-- The release of a space calls {lit}`pfa_free` once for each of its frames, which clears the
bit of that frame, and changes no other bit. -/
structure DestroyExact (m : Memory) (d : Nat) : Prop where
  once : (m.destroyLogged (4096 * d)).2.Nodup
  frames : ∀ a, a ∈ (m.destroyLogged (4096 * d)).2 ↔ ∃ s f, m.slots d s = some f ∧ a = 4096 * f
  cleared : ∀ s f, m.slots d s = some f →
    m.pfa.used f = true ∧ (m.destroyUserSpace (4096 * d)).pfa.used f = false
  others : ∀ g, (∀ s, m.slots d s ≠ some g) →
    (m.destroyUserSpace (4096 * d)).pfa.used g = m.pfa.used g

/-- The memory between two calls: the window is closed, and the loaded directory is not
free. -/
structure AtRest (m : Memory) : Prop where
  ok : MemOk m
  pde : m.pageDirectory 768 < 2 ^ 32
  loaded : ¬ m.pfa.Free (m.cr3 / 4096)

/-- A space that was built is well formed, also while it is under construction. -/
theorem Built.wellFormed {m₀ : Memory} {X : List Nat} (hb : Built m₀ m d X) : WellFormed m d := by
  refine ⟨hb.kernel, fun i hlo hhi => ?_, fun s f hs => ?_, fun s s' f hs hs' => ?_⟩
  · rw [hb.high i hlo hhi]
    rfl
  · have howns := hb.owns_slot hs
    have hfree := hb.fresh f howns
    exact ⟨(hb.used f).2 (.inr (.inl howns)), hb.same.startFrame ▸ hfree.1,
      hb.same.totalFrames ▸ hfree.2.1⟩
  · exact hb.separate s s' f (hb.owns_slot hs).1 hs hs'

/-- The spaces of the processes are well formed after a boot that ran out of no frame. -/
theorem Spaces.wellFormed {F : Nat → Prop} {safe : Prop} {ds : List Nat}
    (h : Spaces F safe m ds) (hs : safe) (hd : d ∈ ds) : WellFormed m d := by
  have hspace := h.space d hd
  have howns : ∀ s f, m.slots d s = some f → Owns (m.slots d) f := fun s f hf =>
    ⟨fun hz => h.filled hs d hd s (hz ▸ hf), s, hf⟩
  refine ⟨hspace.kernel, fun i hlo hhi => ?_, fun s f hf => hspace.used f (howns s f hf),
    fun s s' f hf hf' => hspace.separate s s' f (howns s f hf).1 hf hf'⟩
  rw [hspace.high i hlo hhi]
  rfl

/-- The release of a well-formed space is exact. -/
theorem WellFormed.destroy (h : WellFormed m d) (hok : MemOk m) : DestroyExact m d := by
  have hman := h.allocated .dir d rfl
  obtain ⟨hd, hd20⟩ := hok.managed hman.2
  have hsep : Separate (m.slots d) := fun s s' f _ hs hs' => h.distinct s s' f hs hs'
  have hlog := destroyLogged_snd hok hd hd20 hsep
  have hmanaged : ∀ f, Owns (m.slots d) f → m.Managed f := by
    rintro f ⟨-, s, hs⟩
    exact (h.allocated s f hs).2
  obtain ⟨p, phys, hres, -, -, -, -, hused⟩ := destroyUserSpace_spec hok hd hd20 hsep hmanaged
  have haddr : ∀ s a, m.slotAddr d s = some a ↔ ∃ f, m.slots d s = some f ∧ a = 4096 * f := by
    intro s a
    rw [slotAddr, Option.map_eq_some_iff]
    exact exists_congr fun f => and_congr_right fun _ => eq_comm
  refine ⟨?_, fun a => ?_, fun s f hs => ?_, fun g hg => ?_⟩
  · rw [hlog]
    refine slotOrder_nodup.filterMap fun s s' a hs hs' => ?_
    obtain ⟨f, hf, rfl⟩ := (haddr s a).1 hs
    obtain ⟨f', hf', hff⟩ := (haddr s' _).1 hs'
    rw [← (by omega : f = f')] at hf'
    exact h.distinct s s' f hf hf'
  · rw [hlog, List.mem_filterMap]
    constructor
    · rintro ⟨s, -, hs⟩
      exact ⟨s, (haddr s a).1 hs⟩
    · rintro ⟨s, f, hs, rfl⟩
      exact ⟨s, mem_slotOrder hs, (haddr s _).2 ⟨f, hs, rfl⟩⟩
  · have hf := h.allocated s f hs
    refine ⟨hf.1, Bool.eq_false_iff.2 fun hu => ?_⟩
    rw [hres] at hu
    exact ((hused f).1 hu).2 ⟨(hok.managed hf.2).1, s, hs⟩
  · rw [hres, Bool.eq_iff_iff, hused g]
    refine and_iff_left ?_
    rintro ⟨-, s, hs⟩
    exact hg s hs

/-- The release of a space that was just built gives the bitmap back. -/
theorem Built.destroy_bitmap {m₀ : Memory} (hb : Built m₀ m d []) (hrest : AtRest m₀) :
    (m.destroyUserSpace (4096 * d)).pfa.bitmap = m₀.pfa.bitmap := by
  refine Bitmap.ext_test (hb.destroy fun hcr3 => hrest.loaded ?_).used
  rw [← hcr3, Nat.mul_div_cancel_left _ (by norm_num)]
  exact hb.dir_free

/-- A release is exact on every well-formed space, and after a clone or a new image that
succeeds it gives the bitmap back. -/
theorem destroy_exact (hrest : AtRest m) :
    (∀ d, WellFormed m d → DestroyExact m d) ∧
      (∀ pd pdt m', Settled m pd → m.cloneUserSpace (4096 * pd) = (pdt, m') → pdt ≠ 0 →
        WellFormed m' (pdt / 4096) ∧ (m'.destroyUserSpace pdt).pfa.bitmap = m.pfa.bitmap) ∧
      ∀ modStart modEnd image m', m.buildNewImage modStart modEnd = (some image, m') →
        WellFormed m' (image.pdt / 4096) ∧
          (m'.destroyUserSpace image.pdt).pfa.bitmap = m.pfa.bitmap := by
  refine ⟨fun d h => h.destroy hrest.ok, fun pd pdt m' hp hrun hpdt => ?_,
    fun a b image m' hrun => ?_⟩
  · rcases cloneUserSpace_spec hrest.ok hrest.pde hp hrest.loaded with
      ⟨d, m₁, hclone, -, hb, -⟩ | ⟨m₁, hclone, -⟩
    · rw [hclone] at hrun
      cases hrun
      rw [Nat.mul_div_cancel_left _ (by norm_num)]
      exact ⟨hb.wellFormed, hb.destroy_bitmap hrest⟩
    · rw [hclone] at hrun
      cases hrun
      exact absurd rfl hpdt
  · rcases buildNewImage_spec (a := a) (b := b) hrest.ok hrest.pde hrest.loaded with
      ⟨d, m₁, hbuild, hb, -⟩ | ⟨m₁, hbuild, -⟩
    · rw [hbuild] at hrun
      cases hrun
      rw [Nat.mul_div_cancel_left _ (by norm_num)]
      exact ⟨hb.wellFormed, hb.destroy_bitmap hrest⟩
    · rw [hbuild] at hrun
      cases hrun

end Release

end Memory

namespace Kernel

/-- Between two calls of a running kernel the memory is at rest. -/
theorem Inv.atRest {L : Layout} {R : Nat → Prop} {safe : Prop} {k : Kernel}
    (h : Inv L R safe k) : k.store.mem.AtRest :=
  ⟨h.holding.store.spaces.ok, h.holding.store.spaces.pde.1, h.cr3_not_free⟩

theorem destroy_exact_sample_boot :
    ∃ k₀ pdt m image m', kmain sampleLayout (sampleBoot 1 (by decide) .rr) = some k₀ ∧
      Memory.DestroyExact k₀.store.mem (k₀.dirOf k₀.sched.currentPcb) ∧
      k₀.store.mem.cloneUserSpace (4096 * k₀.dirOf k₀.sched.currentPcb) = (pdt, m) ∧ pdt ≠ 0 ∧
      (m.destroyUserSpace pdt).pfa.bitmap = k₀.store.mem.pfa.bitmap ∧
      k₀.store.mem.buildNewImage 0x300000 0x301000 = (some image, m') ∧
      (m'.destroyUserSpace image.pdt).pfa.bitmap = k₀.store.mem.pfa.bitmap := by
  obtain ⟨k₀, hboot, hroom, -⟩ :=
    sampleBoot_room (show 0 < 1 by decide) (by decide) SchedulingPolicy.rr
  have hinv := kmain_inv hboot
  have hspaces := hinv.holding.store.spaces
  have hrest := hinv.atRest
  have hframes := hroom.frames
  obtain ⟨hexact, hclone, hbuild⟩ := Memory.destroy_exact hrest
  have hsettled := hspaces.settled hinv.loaded.2
  have hfilled := hspaces.filled hroom.plenty _ hinv.loaded.2
  -- Most frames are free, so neither construction runs out.
  have hdemand := (hspaces.space _ hinv.loaded.2).cloneDemand_le hfilled
  have hwindow := hrest.ok.window
  rcases Memory.cloneUserSpace_spec hrest.ok hrest.pde hsettled hrest.loaded with
    ⟨d, m, hrun, hd, -⟩ | ⟨m, -, hfailed⟩
  · rcases Memory.buildNewImage_spec (a := 0x300000) (b := 0x301000) hrest.ok hrest.pde hrest.loaded with
      ⟨d', m', hrun', -⟩ | ⟨m', -, -, hshort⟩
    · exact ⟨k₀, _, m, _, m', hboot, hexact _ (hspaces.wellFormed hroom.plenty hinv.loaded.2), hrun,
        by omega, (hclone _ _ m hsettled hrun (by omega)).2, hrun', (hbuild _ _ _ m' hrun').2⟩
    · have hfive : Memory.imageDemand (0x301000 - 0x300000) = 5 := by decide
      omega
  · have hless := hfailed.2
    have hlo := hwindow.1
    have hhi := hwindow.2
    omega

end Kernel

end SoKernel
