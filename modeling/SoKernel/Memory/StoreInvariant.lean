import SoKernel.Memory.Spaces

/-!
# The memory side of the kernel

This module puts the kernel heap and the address spaces together.  The heap needs
its frames to stay in use and its page table entries to stay as they are; the spaces
need their frames to stay out of the heap's hands.

Main results:

- Definition {lit}`StoreOk`: the invariant of heap and spaces.
- Theorems {lit}`StoreOk.kmalloc` and {lit}`StoreOk.kfree`: what the heap calls do to it.
- Theorems {lit}`StoreOk.built`, {lit}`StoreOk.restored`, {lit}`StoreOk.destroy` and
  {lit}`StoreOk.write`: what building, releasing and writing spaces do to it.
- Definition {lit}`GrownSince`: what a call may leave behind that has given everything back
  but the pages of the heap.
-/

namespace SoKernel

/-- A frame that backs a page of the heap's part of the kernel window. -/
def HeapFrame (L : Layout) (m : Memory) (f : Nat) : Prop :=
  ∃ i, pageIndex L.heapStart ≤ i ∧ i < 1023 ∧ m.kernelPageTable i = 4096 * f + 3

theorem heapFrame_congr {L : Layout} {m m' : Memory}
    (h : m'.kernelPageTable = m.kernelPageTable) : HeapFrame L m' = HeapFrame L m := by
  unfold HeapFrame
  rw [h]

/-- The invariant of heap and spaces; {lit}`R` are the frames reserved at boot. -/
structure StoreOk (L : Layout) (R : Nat → Prop) (safe : Prop) (s : Store) (ds : List Nat) :
    Prop where
  heap : ∃ ts, HeapReady L s ts
  spaces : Memory.Spaces (fun f => R f ∨ HeapFrame L s.mem f) safe s.mem ds
  stray : s.mem.strayAccess = false
  loaded : s.mem.destroyedLoaded = false

section Store

variable {L : Layout} {R : Nat → Prop} {safe : Prop} {s : Store} {ds : List Nat} {m : Memory}
  {d : Nat}

/-! ## Heap calls -/

/-- The pointer of a new block is not a live pointer. -/
theorem Allocated.ptr_fresh {s s' : Store} {ts ts' : List (Tile Nat)} {n ptr : Nat} {u : Tile Nat}
    (hok : HeapOk L s ts) (ha : Allocated L s s' ts n ptr ts' u) :
    ∀ b ∈ s.heap.live, b.1 ≠ ptr := by
  intro b hb hptr
  obtain ⟨t, ht, hto, hbt⟩ := hok.exists_tile hb
  have howned : t ∈ ownedTiles ts := mem_ownedTiles.2 ⟨ht, by rw [hto]; rfl⟩
  have hnodup : (ownedTiles ts').Nodup := ha.ok.shape.tiled.nodup.filter _
  have hu := (List.nodup_cons.1 (ha.owned.nodup_iff.1 hnodup)).1
  have htts' := (mem_ownedTiles.1 (ha.owned.mem_iff.2 (List.mem_cons_of_mem _ howned))).1
  have haddr : t.addr = u.addr := by
    have := ha.ptr_eq
    omega
  exact hu (ha.ok.shape.tiled.eq_of_addr_eq htts' ha.mem haddr ▸ howned)

/-- The frames that back heap pages after growth did so before or were free. -/
theorem heapFrame_grown {m m' : Memory} {lo : Nat} (hg : MemGrown m m' lo) {f : Nat}
    (hf : HeapFrame L m' f) : HeapFrame L m f ∨ m.pfa.Free f ∧ m'.pfa.used f = true := by
  obtain ⟨i, hlo, hhi, hi⟩ := hf
  rcases hg.maps i with hsame | ⟨-, -, g, hfree, hused, hg'⟩
  · exact .inl ⟨i, hlo, hhi, hsame ▸ hi⟩
  · have hgf : g = f := by omega
    exact .inr (hgf ▸ ⟨hfree, hused⟩)

/-- What a call of {lit}`kmalloc` does to the whole store, apart from its result. -/
structure Grew (L : Layout) (R : Nat → Prop) (safe : Prop) (s s' : Store) (ds : List Nat) :
    Prop where
  ok : StoreOk L R safe s' ds
  mem : MemGrown s.mem s'.mem (pageIndex s.heap.heapCurrent)
  slots : ∀ d ∈ ds, s'.mem.slots d = s.mem.slots d

/-- {lit}`kmalloc` returns a new block, or fails for want of room or of frames. -/
theorem StoreOk.kmalloc (h : StoreOk L R safe s ds) {n : Nat} (hpos : 1 ≤ n) (hn : n ≤ 0x3FF000) :
    (∃ ptr s', s.kmalloc L n = (ptr, s') ∧ ptr ≠ 0 ∧ Grew L R safe s s' ds ∧
        s'.heap.live = (ptr, n) :: s.heap.live ∧ (∀ b ∈ s.heap.live, b.1 ≠ ptr) ∧
        4096 * s'.mem.pfa.freeCount + s'.heap.heapCurrent =
          4096 * s.mem.pfa.freeCount + s.heap.heapCurrent ∧
        s.heap.heapCurrent ≤ s'.heap.heapCurrent ∧
        s'.heap.heapCurrent ≤ s.heap.heapCurrent + 4096 * corePages (unitsFor n) ∧
        (s'.heap.heapCurrent = s.heap.heapCurrent ∨
          s.heap.heapCurrent ≤ L.heapStart + crowded s.heap.live n)) ∨
      (∃ s', s.kmalloc L n = (0, s') ∧ Grew L R safe s s' ds ∧ s'.heap.live = s.heap.live ∧
        (0xC03FF000 < s.heap.heapCurrent + 4096 * corePages (unitsFor n) ∨
          s.mem.pfa.freeCount < corePages (unitsFor n))) := by
  obtain ⟨ts, hr⟩ := h.heap
  obtain ⟨hcur, hlive⟩ := prepared_frame L s.heap
  have hgrew : ∀ {s' : Store} {ts' : List (Tile Nat)}, HeapOk L s' ts' →
      MemGrown s.mem s'.mem (pageIndex s.heap.heapCurrent) → Grew L R safe s s' ds := by
    intro s' ts' hok hg
    obtain ⟨hspaces, hslots⟩ :
        Memory.Spaces (fun f => R f ∨ HeapFrame L s'.mem f) safe s'.mem ds ∧ _ := by
      refine h.spaces.grow hg ?_
      rintro f (hf | hf)
      · exact .inl (.inl hf)
      · rcases heapFrame_grown hg hf with hf | hf
        · exact .inl (.inr hf)
        · exact .inr hf
    exact ⟨⟨⟨ts', .inl hok⟩, hspaces, by rw [hg.strayAccess, h.stray],
      by rw [hg.destroyedLoaded, h.loaded]⟩, hg, hslots⟩
  have hspec := kmalloc_spec hr hpos hn
  have hcrowd := hr.kmalloc_current hpos hn
  cases hres : s.kmalloc L n with
  | mk ptr s' =>
      rw [hres] at hspec hcrowd
      cases hspec with
      | block halloc hmem hcount hbounds =>
          rw [hcur] at hmem
          simp only [hcur] at hcount hbounds
          have hfresh := halloc.ptr_fresh hr.prepared
          simp only [hlive] at hfresh
          refine .inl ⟨ptr, s', rfl, halloc.ptr_ne, hgrew halloc.ok hmem, ?_, hfresh, hcount,
            hbounds.1, hbounds.2, hcrowd⟩
          rw [halloc.live]
          exact congrArg _ hlive
      | fail hok hmem hkept hwhy =>
          rw [hcur] at hmem
          have hwhy' := hwhy.why
          simp only [hcur] at hwhy'
          refine .inr ⟨s', rfl, hgrew hok hmem, ?_, hwhy'⟩
          rw [hkept.live]
          exact hlive

/-- {lit}`kfree` of a live pointer. -/
theorem StoreOk.kfree (h : StoreOk L R safe s ds) {b : Nat × Nat} (hb : b ∈ s.heap.live) :
    StoreOk L R safe (s.kfree b.1) ds ∧
      (s.kfree b.1).heap.live = s.heap.live.filter (fun c => c.1 ≠ b.1) := by
  obtain ⟨ts, hr⟩ := h.heap
  obtain ⟨ts', hok, hlive, -, -⟩ := (hr.ok_of_live hb).kfree_live hb
  exact ⟨⟨⟨ts', .inl hok⟩, h.spaces, h.stray, h.loaded⟩, hlive⟩

/-- Clearing a live block. -/
theorem StoreOk.zeroBytes (h : StoreOk L R safe s ds) {ptr n : Nat}
    (hb : (ptr, n) ∈ s.heap.live) :
    StoreOk L R safe { s with heap := s.heap.zeroBytes ptr n } ds ∧
      (s.heap.zeroBytes ptr n).live = s.heap.live ∧
      (s.heap.zeroBytes ptr n).heapCurrent = s.heap.heapCurrent := by
  -- Only bytes of the block change.
  have hloop : ∃ bytes : ByteMemory, s.heap.zeroBytes ptr n = { s.heap with bytes := bytes } ∧
      ∀ x, x < ptr ∨ ptr + n ≤ x → bytes x = s.heap.bytes x := by
    refine forRange_induct (fun i (t : Heap) => ∃ bytes : ByteMemory,
      t = { s.heap with bytes := bytes } ∧
        ∀ x, x < ptr ∨ ptr + n ≤ x → bytes x = s.heap.bytes x)
      ⟨s.heap.bytes, rfl, fun _ _ => rfl⟩ ?_
    rintro i hi t ⟨bytes, rfl, hbytes⟩
    refine ⟨Function.update bytes (ptr + i) 0, rfl, fun x hx => ?_⟩
    rw [Function.update_of_ne (by omega)]
    exact hbytes x hx
  obtain ⟨bytes, heq, hbytes⟩ := hloop
  obtain ⟨ts, hr⟩ := h.heap
  rw [heq]
  refine ⟨⟨⟨ts, hr.between ⟨rfl, rfl, fun _ _ _ => rfl, fun _ _ _ _ _ hu => hu, fun x hx => ?_⟩⟩,
    h.spaces, h.stray, h.loaded⟩, rfl, rfl⟩
  exact hbytes x (hx (ptr, n) hb)

/-- The end of the heap lies on a page boundary within the heap's part of the window. -/
theorem StoreOk.heap_bounds (h : StoreOk L R safe s ds) :
    L.heapStart ≤ s.heap.heapCurrent ∧ s.heap.heapCurrent ≤ 0xC03FF000 ∧
      s.heap.heapCurrent % 4096 = 0 := by
  obtain ⟨ts, hr⟩ := h.heap
  have hok := hr.prepared
  have hlo := hok.current_lo.2
  have hhi := hok.shape.top
  have halign := hok.aligned
  simp only [(prepared_frame L s.heap).1] at hlo hhi halign
  exact ⟨hlo, hhi, halign⟩

/-! ## Operations on the spaces -/

/-- The heap does not notice a change of memory that keeps its pages and their frames. -/
theorem HeapReady.withMem {ts : List (Tile Nat)} (hr : HeapReady L s ts)
    (hstart : m.pfa.startFrame = s.mem.pfa.startFrame)
    (htotal : m.pfa.totalFrames = s.mem.pfa.totalFrames)
    (htable : m.kernelPageTable = s.mem.kernelPageTable)
    (hused : ∀ f, HeapFrame L s.mem f → m.pfa.used f = true) :
    HeapReady L ⟨m, s.heap⟩ ts := by
  refine hr.between ⟨hstart, htotal, fun i _ _ => by rw [htable], fun i f hlo hhi hi _ => ?_,
    fun _ _ => rfl⟩
  refine hused f ⟨i, hlo, ?_, hi⟩
  have : pageIndex s.heap.heapCurrent < 1024 := Nat.mod_lt _ (by norm_num)
  omega

/-- A step on memory that keeps the heap's pages and gives spaces again. -/
theorem StoreOk.withMem {ds' : List Nat} (h : StoreOk L R safe s ds)
    (hspaces : Memory.Spaces (fun f => R f ∨ HeapFrame L s.mem f) safe m ds')
    (hstart : m.pfa.startFrame = s.mem.pfa.startFrame)
    (htotal : m.pfa.totalFrames = s.mem.pfa.totalFrames)
    (htable : m.kernelPageTable = s.mem.kernelPageTable) (hstray : m.strayAccess = false)
    (hloaded : m.destroyedLoaded = false) : StoreOk L R safe ⟨m, s.heap⟩ ds' := by
  obtain ⟨ts, hr⟩ := h.heap
  refine ⟨⟨ts, hr.withMem hstart htotal htable fun f hf => (hspaces.kept f (.inr hf)).1⟩, ?_,
    hstray, hloaded⟩
  simp only [heapFrame_congr htable]
  exact hspaces

theorem StoreOk.perm (h : StoreOk L R safe s ds) {ds' : List Nat} (hperm : ds.Perm ds') :
    StoreOk L R safe s ds' :=
  ⟨h.heap, h.spaces.perm hperm, h.stray, h.loaded⟩

/-- A construction that is complete. -/
theorem StoreOk.built (h : StoreOk L R safe s ds) (hb : Memory.Built s.mem m d []) :
    StoreOk L R safe ⟨m, s.heap⟩ (d :: ds) ∧ ∀ d' ∈ ds, m.slots d' = s.mem.slots d' := by
  obtain ⟨hspaces, hslots⟩ := h.spaces.built hb
  exact ⟨h.withMem hspaces hb.same.startFrame hb.same.totalFrames hb.same.kernelPageTable
    (hb.same.strayAccess.trans h.stray) (hb.same.destroyedLoaded.trans h.loaded), hslots⟩

/-- A construction that was given up. -/
theorem StoreOk.restored (h : StoreOk L R safe s ds) (hr : Memory.Restored s.mem m) :
    StoreOk L R safe ⟨m, s.heap⟩ ds ∧ ∀ d' ∈ ds, m.slots d' = s.mem.slots d' := by
  obtain ⟨hspaces, hslots⟩ := h.spaces.restored hr
  exact ⟨h.withMem hspaces hr.same.startFrame hr.same.totalFrames hr.same.kernelPageTable
    (hr.same.strayAccess.trans h.stray) (hr.same.destroyedLoaded.trans h.loaded), hslots⟩

/-- The release of a space that is not loaded. -/
theorem StoreOk.destroy (h : StoreOk L R safe s (d :: ds)) (hcr3 : 4096 * d ≠ s.mem.cr3) :
    ∃ m, s.mem.destroyUserSpace (4096 * d) = m ∧ StoreOk L R safe ⟨m, s.heap⟩ ds ∧
      (∀ d' ∈ ds, m.slots d' = s.mem.slots d') ∧
      m.cr3 = s.mem.cr3 ∧ m.pageDirectory = s.mem.pageDirectory ∧
      m.pfa.startFrame = s.mem.pfa.startFrame ∧ m.pfa.totalFrames = s.mem.pfa.totalFrames ∧
      (∀ f, f ≠ d → ByteMemory.BlockEq s.mem.phys m.phys f) ∧
      (∀ g, m.pfa.used g = true ↔ s.mem.pfa.used g = true ∧ ¬ Owns (s.mem.slots d) g) := by
  obtain ⟨p, phys, hres, hstart, htotal, hphys, hused, hspaces, hslots⟩ := h.spaces.destroy
  refine ⟨_, rfl, ?_, hslots, ?_⟩
  · rw [hres] at hspaces ⊢
    refine h.withMem hspaces hstart htotal rfl h.stray ?_
    simp only [h.loaded, decide_eq_false hcr3, Bool.or_false]
  · rw [hres]
    exact ⟨rfl, rfl, hstart, htotal, hphys, hused⟩

/-- Loading another directory. -/
theorem StoreOk.updateCr3 (h : StoreOk L R safe s ds) (pdt : Nat) :
    StoreOk L R safe ⟨s.mem.updateCr3 pdt, s.heap⟩ ds :=
  h.withMem (h.spaces.updateCr3 pdt) rfl rfl rfl h.stray h.loaded

/-- A write to a page of one space. -/
theorem StoreOk.write (h : StoreOk L R safe s ds) (hd : d ∈ ds) {i j f : Nat} {phys : ByteMemory}
    (hslot : s.mem.slots d (.page i j) = some f) (hf : f ≠ 0)
    (hwrite : ∀ g, g ≠ f → ByteMemory.BlockEq s.mem.phys phys g) :
    StoreOk L R safe ⟨{ s.mem with phys := phys }, s.heap⟩ ds ∧
      ∀ d' ∈ ds, ({ s.mem with phys := phys } : Memory).slots d' = s.mem.slots d' := by
  obtain ⟨hspaces, hslots⟩ := h.spaces.write hd hslot hf hwrite
  exact ⟨h.withMem hspaces rfl rfl rfl h.stray h.loaded, hslots⟩

end Store

/-! ## What is left of a call -/

/-- Since {lit}`m₀` the heap has taken frames for pages below {lit}`hi`, the frames
{lit}`own` have been taken by somebody else, and no frame that was in use has changed. -/
structure GrownSince (L : Layout) (m₀ : Memory) (own : Nat → Prop) (hi : Nat) (m : Memory) :
    Prop where
  startFrame : m.pfa.startFrame = m₀.pfa.startFrame
  totalFrames : m.pfa.totalFrames = m₀.pfa.totalFrames
  keeps : ∀ f, m₀.pfa.used f = true → m.pfa.used f = true
  takes : ∀ f, m.pfa.used f = true → m₀.pfa.used f = true ∨ own f ∨
    ∃ i, pageIndex L.heapStart ≤ i ∧ i < hi ∧ m.kernelPageTable i = 4096 * f + 3
  fresh : ∀ f, own f → m₀.pfa.Free f
  phys : ∀ f, ¬ m₀.pfa.Free f → ByteMemory.BlockEq m₀.phys m.phys f

section GrownSince

variable {L : Layout} {m₀ m m' : Memory} {own : Nat → Prop} {hi : Nat}

theorem GrownSince.refl (L : Layout) (m : Memory) (hi : Nat) :
    GrownSince L m (fun _ => False) hi m :=
  ⟨rfl, rfl, fun _ h => h, fun _ h => .inl h, fun _ h => h.elim,
    fun _ _ => ByteMemory.BlockEq.refl _ _⟩

theorem GrownSince.free (h : GrownSince L m₀ own hi m) {f : Nat} (hf : m.pfa.Free f) :
    m₀.pfa.Free f := by
  refine ⟨h.startFrame ▸ hf.1, h.totalFrames ▸ hf.2.1, ?_⟩
  by_contra hused
  have hkept := h.keeps f (by simpa using hused)
  rw [hf.2.2] at hkept
  cases hkept

theorem GrownSince.mono (h : GrownSince L m₀ own hi m) {hi' : Nat} (hle : hi ≤ hi') :
    GrownSince L m₀ own hi' m := by
  refine ⟨h.startFrame, h.totalFrames, h.keeps, fun f hf => ?_, h.fresh, h.phys⟩
  refine (h.takes f hf).imp_right fun hnew => hnew.imp_right ?_
  rintro ⟨i, hlo, hlt, hi⟩
  exact ⟨i, hlo, by omega, hi⟩

/-- The heap grows: the pages it maps lie above those it has. -/
theorem GrownSince.grow {lo : Nat} (h : GrownSince L m₀ own lo m) (hg : MemGrown m m' lo)
    (hstart : pageIndex L.heapStart ≤ lo) (hlo : lo ≤ hi)
    (hhi : ∀ i, i < 1023 → i + m'.pfa.freeCount < lo + m.pfa.freeCount → i < hi) :
    GrownSince L m₀ own hi m' := by
  refine ⟨hg.startFrame.trans h.startFrame, hg.totalFrames.trans h.totalFrames,
    fun f hf => hg.keeps f (h.keeps f hf), fun f hf => ?_, h.fresh, fun f hf => ?_⟩
  · rcases hg.backs f hf with hold | ⟨i, hilo, hilt, hcount, hi⟩
    · refine (h.takes f hold).imp_right fun hnew => hnew.imp_right ?_
      rintro ⟨i, hilo, hilt, hi⟩
      refine ⟨i, hilo, by omega, ?_⟩
      rcases hg.maps i with hsame | ⟨hge, -⟩
      · rw [hsame, hi]
      · omega
    · exact .inr (.inr ⟨i, by omega, hhi i hilt hcount, hi⟩)
  · rw [hg.phys]
    exact h.phys f hf

/-- A call of {lit}`kmalloc` that returns a block maps the pages up to the new end of the
heap. -/
theorem GrownSince.kmalloc {R : Nat → Prop} {safe : Prop} {s s' : Store} {ds : List Nat}
    (h : GrownSince L m₀ own (pageIndex s.heap.heapCurrent) s.mem) (hs : StoreOk L R safe s ds)
    (hs' : StoreOk L R safe s' ds)
    (hg : MemGrown s.mem s'.mem (pageIndex s.heap.heapCurrent))
    (hcount : 4096 * s'.mem.pfa.freeCount + s'.heap.heapCurrent =
      4096 * s.mem.pfa.freeCount + s.heap.heapCurrent)
    (hle : s.heap.heapCurrent ≤ s'.heap.heapCurrent) :
    GrownSince L m₀ own (pageIndex s'.heap.heapCurrent) s'.mem := by
  obtain ⟨hlo, hhi, halign⟩ := hs.heap_bounds
  obtain ⟨hlo', hhi', halign'⟩ := hs'.heap_bounds
  have hstart := L.heapStart_bounds
  refine h.grow hg ?_ ?_ fun i hi hfree => ?_
  · unfold pageIndex
    omega
  · unfold pageIndex
    omega
  · unfold pageIndex at hfree ⊢
    omega

/-- A call of {lit}`kmalloc` that fails may have mapped pages above the end of the heap. -/
theorem GrownSince.kmalloc_failed {R : Nat → Prop} {safe : Prop} {s : Store} {ds : List Nat}
    (h : GrownSince L m₀ own (pageIndex s.heap.heapCurrent) s.mem) (hs : StoreOk L R safe s ds)
    (hg : MemGrown s.mem m' (pageIndex s.heap.heapCurrent)) : GrownSince L m₀ own 1023 m' := by
  obtain ⟨hlo, hhi, halign⟩ := hs.heap_bounds
  have hstart := L.heapStart_bounds
  refine h.grow hg ?_ ?_ fun i hi _ => hi
  · unfold pageIndex
    omega
  · unfold pageIndex
    omega

/-- The frames of a space depend on physical memory only. -/
theorem GrownSince.slots {d : Nat} (h : GrownSince L m₀ (Owns (m.slots d)) hi m')
    (hphys : m'.phys = m.phys) : GrownSince L m₀ (Owns (m'.slots d)) hi m' := by
  have hslots : m'.slots d = m.slots d := by
    unfold Memory.slots
    rw [hphys]
  rw [hslots]
  exact h

/-- A space is built on free frames. -/
theorem GrownSince.built {d : Nat} (h : GrownSince L m₀ (fun _ => False) hi m)
    (hb : Memory.Built m m' d []) : GrownSince L m₀ (Owns (m'.slots d)) hi m' := by
  refine ⟨hb.same.startFrame.trans h.startFrame, hb.same.totalFrames.trans h.totalFrames,
    fun f hf => (hb.used f).2 (.inl (h.keeps f hf)), fun f hf => ?_, fun f hf => h.free (hb.fresh f hf),
    fun f hf => (h.phys f hf).trans (hb.phys f fun hfree => hf (h.free hfree))⟩
  rw [hb.same.kernelPageTable]
  rcases (hb.used f).1 hf with hold | howns | hnil
  · exact (h.takes f hold).imp_right fun hnew => hnew.imp_left False.elim
  · exact .inr (.inl howns)
  · cases hnil

/-- A construction is given up. -/
theorem GrownSince.restored (h : GrownSince L m₀ own hi m) (hr : Memory.Restored m m') :
    GrownSince L m₀ own hi m' := by
  refine ⟨hr.same.startFrame.trans h.startFrame, hr.same.totalFrames.trans h.totalFrames,
    fun f hf => ?_, fun f hf => ?_, h.fresh,
    fun f hf => (h.phys f hf).trans (hr.phys f fun hfree => hf (h.free hfree))⟩
  · rw [hr.used]
    exact h.keeps f hf
  · rw [hr.used] at hf
    rw [hr.same.kernelPageTable]
    exact h.takes f hf

/-- The space is released again. -/
theorem GrownSince.destroy {F : Nat → Prop} {safe : Prop} {ds : List Nat} {d : Nat}
    (h : GrownSince L m₀ (Owns (m.slots d)) hi m) (hs : Memory.Spaces F safe m (d :: ds)) :
    GrownSince L m₀ (fun _ => False) hi (m.destroyUserSpace (4096 * d)) := by
  obtain ⟨p, phys, hres, hstart, htotal, hphys, hused, -⟩ := hs.destroy
  rw [hres]
  refine ⟨hstart.trans h.startFrame, htotal.trans h.totalFrames,
    fun f hf => (hused f).2 ⟨h.keeps f hf, fun howns => ?_⟩, fun f hf => ?_, fun _ => False.elim,
    fun f hf => (h.phys f hf).trans (hphys f ?_)⟩
  · have hfree := h.fresh f howns
    rw [hfree.2.2] at hf
    cases hf
  · obtain ⟨hf, hnot⟩ := (hused f).1 hf
    exact (h.takes f hf).imp_right fun hnew => .inr (hnew.resolve_left hnot)
  · rintro rfl
    exact hf (h.fresh f (hs.dir_owned List.mem_cons_self))

/-- An empty directory is given back. -/
theorem GrownSince.freeDir {d : Nat} (h : GrownSince L m₀ (Owns (m.slots d)) hi m)
    (hempty : ∀ x, m.slots d x = if x = .dir then some d else none) (hd : d ≠ 0) :
    GrownSince L m₀ (fun _ => False) hi (m.pfaFree (4096 * d)) := by
  have howns : ∀ f, Owns (m.slots d) f ↔ f = d := by
    intro f
    constructor
    · rintro ⟨-, x, hx⟩
      rw [hempty x] at hx
      split at hx
      · exact (Option.some.inj hx).symm
      · cases hx
    · rintro rfl
      exact ⟨hd, .dir, rfl⟩
  have hfree := h.fresh d ((howns d).2 rfl)
  have hman : m.Managed d := ⟨h.startFrame ▸ hfree.1, h.totalFrames ▸ hfree.2.1⟩
  have hused : ∀ f, (m.pfaFree (4096 * d)).pfa.used f = true ↔ m.pfa.used f = true ∧ f ≠ d := by
    intro f
    change (m.pfa.pfaFree (4096 * d)).used f = true ↔ _
    rw [Memory.used_pfaFree_frame]
    refine and_congr_right fun _ => not_congr ⟨fun hf => hf.1.symm, ?_⟩
    rintro rfl
    exact ⟨rfl, hman⟩
  refine ⟨?_, ?_, fun f hf => (hused f).2 ⟨h.keeps f hf, ?_⟩, fun f hf => ?_, fun _ => False.elim,
    h.phys⟩
  · rw [Memory.pfaFree, Pfa.pfaFree_startFrame, h.startFrame]
  · rw [Memory.pfaFree, Pfa.pfaFree_totalFrames, h.totalFrames]
  · rintro rfl
    rw [hfree.2.2] at hf
    cases hf
  · obtain ⟨hf, hne⟩ := (hused f).1 hf
    refine (h.takes f hf).imp_right fun hnew => .inr (hnew.resolve_left fun hown => ?_)
    exact hne ((howns f).1 hown)

end GrownSince

end SoKernel
