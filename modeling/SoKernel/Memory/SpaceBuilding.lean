import SoKernel.Memory.AddressSpace

/-!
# Building address spaces

A space under construction is compared with the memory before it was begun: every
frame it has was free then, and nothing outside these frames has changed.  The
operations of {lit}`syscall.c` that add a table or a page keep this relation, and
releasing a space under construction gives the allocator back.

Main results:

- Definition {lit}`Built`: the relation between the memory before and during the
  construction.
- Theorem {lit}`Built.destroy`: releasing what was built restores the used frames.
-/

namespace SoKernel

namespace Memory

/-- The space with directory {lit}`d` is under construction since {lit}`m₀`; the frames
in {lit}`X` are allocated and not entered yet. -/
structure Built (m₀ m : Memory) (d : Nat) (X : List Nat) : Prop where
  before : MemOk m₀
  same : MemSame m₀ m
  kernel : m.phys.word d 768 = m.pageDirectory 768
  high : ∀ i, 768 < i → i < 1024 → m.phys.word d i = 0
  separate : Separate (m.slots d)
  filled : ∀ s, m.slots d s ≠ some 0
  fresh : ∀ f, Owns (m.slots d) f → m₀.pfa.Free f
  loose : ∀ f ∈ X, m₀.pfa.Free f ∧ ¬ Owns (m.slots d) f
  used : ∀ f, m.pfa.used f = true ↔ m₀.pfa.used f = true ∨ Owns (m.slots d) f ∨ f ∈ X
  phys : ∀ f, ¬ m₀.pfa.Free f → ByteMemory.BlockEq m₀.phys m.phys f

section Built

variable {m₀ m : Memory} {d : Nat} {X : List Nat}

/-- A free frame is managed. -/
theorem Free.managed {m : Memory} {f : Nat} (h : m.pfa.Free f) : m.Managed f :=
  ⟨h.1, h.2.1⟩

/-- Memory is in order while a space is being built. -/
theorem Built.ok (hb : Built m₀ m d X) : MemOk m :=
  hb.before.same hb.same

/-- A frame that was free fits an entry, and is not frame 0. -/
theorem Built.bounds (hb : Built m₀ m d X) {f : Nat} (hf : m₀.pfa.Free f) :
    f ≠ 0 ∧ f < 2 ^ 20 :=
  hb.before.managed (Free.managed hf)

/-- A space has its directory. -/
theorem Built.dir_owned (hb : Built m₀ m d X) : Owns (m.slots d) d :=
  ⟨fun h => hb.filled .dir (congrArg some h), .dir, rfl⟩

/-- The directory was free. -/
theorem Built.dir_free (hb : Built m₀ m d X) : m₀.pfa.Free d :=
  hb.fresh d hb.dir_owned

/-- What is in a place of the space is a frame of it. -/
theorem Built.owns_slot (hb : Built m₀ m d X) {s : Slot} {f : Nat} (h : m.slots d s = some f) :
    Owns (m.slots d) f :=
  ⟨fun hf => hb.filled s (h.trans (congrArg some hf)), s, h⟩

/-- No slot but the first has the frame of the directory. -/
theorem Built.table_ne_dir (hb : Built m₀ m d X) {i t : Nat}
    (h : m.slots d (.table i) = some t) : t ≠ d := by
  rintro rfl
  cases hb.separate (.table i) .dir t (hb.owns_slot h).1 h rfl

/-- No table stands in two entries. -/
theorem Built.table_once (hb : Built m₀ m d X) {i t : Nat} (h : m.slots d (.table i) = some t)
    {i' : Nat} (h' : m.slots d (.table i') = some t) : i' = i := by
  have := hb.separate _ _ t (hb.owns_slot h).1 h' h
  simpa using this

/-! ## Allocation and release of single frames -/

/-- Taking one more frame. -/
theorem Built.alloc (hb : Built m₀ m d X) :
    (∃ f m₁, m.pfaAlloc = (4096 * f, m₁) ∧ f ∉ X ∧ ¬ Owns (m.slots d) f ∧ m₀.pfa.Free f ∧
        m₁.phys = m.phys ∧ m₁.pfa.freeCount + 1 = m.pfa.freeCount ∧ Built m₀ m₁ d (f :: X)) ∨
      (m.pfa.freeCount = 0 ∧
        ∃ m₁, m.pfaAlloc = (0, m₁) ∧ m₁.phys = m.phys ∧ Built m₀ m₁ d X) := by
  rcases m.pfa.freeCount_pfaAlloc with ⟨f, hf, halloc, hcount⟩ | ⟨hcount, halloc⟩
  · have hnot : ¬ (m₀.pfa.used f = true ∨ Owns (m.slots d) f ∨ f ∈ X) := by
      rw [← hb.used f, hf.2.2]
      simp
    simp only [not_or, Bool.not_eq_true] at hnot
    have hfree : m₀.pfa.Free f :=
      ⟨hb.same.startFrame ▸ hf.1, hb.same.totalFrames ▸ hf.2.1, hnot.1⟩
    rw [halloc] at hcount
    refine .inl ⟨f, { m with pfa := { m.pfa with bitmap := m.pfa.bitmap.set f } },
      by simp only [pfaAlloc, halloc], hnot.2.2, hnot.2.1, hfree, rfl, hcount, hb.before,
      ⟨hb.same.1, hb.same.2, hb.same.3, hb.same.4, hb.same.5, hb.same.6, hb.same.7⟩, hb.kernel,
      hb.high, hb.separate, hb.filled, hb.fresh, ?_, ?_, hb.phys⟩
    · intro g hg
      rcases List.mem_cons.1 hg with rfl | hg
      · exact ⟨hfree, hnot.2.1⟩
      · exact hb.loose g hg
    · intro g
      have hset : ({ m.pfa with bitmap := m.pfa.bitmap.set f } : Pfa).used g = true ↔
          m.pfa.used g = true ∨ f = g := by
        simp [Pfa.used_mk_set m.pfa f g m.pfa.exhausted]
      rw [hset, hb.used g]
      show _ ↔ _ ∨ Owns (m.slots d) g ∨ _
      simp only [List.mem_cons]
      tauto
  · exact .inr ⟨hcount, { m with pfa := { m.pfa with exhausted := true } },
      by simp only [pfaAlloc, halloc], rfl, hb.before,
      ⟨hb.same.1, hb.same.2, hb.same.3, hb.same.4, hb.same.5, hb.same.6, hb.same.7⟩, hb.kernel,
      hb.high, hb.separate, hb.filled, hb.fresh, hb.loose, hb.used, hb.phys⟩

/-- An allocation that succeeds leaves no trace in the history. -/
theorem pfaAlloc_exhausted {x : Nat} {m₁ : Memory} (h : m.pfaAlloc = (x, m₁)) (hx : x ≠ 0) :
    m₁.pfa.exhausted = m.pfa.exhausted := by
  unfold pfaAlloc at h
  rcases m.pfa.pfaAlloc_cases with ⟨f, -, -, halloc⟩ | ⟨-, halloc⟩
  · rw [halloc] at h
    cases h
    rfl
  · rw [halloc] at h
    cases h
    exact absurd rfl hx

/-- Giving back a frame that was not entered. -/
theorem Built.free {f : Nat} (hb : Built m₀ m d (f :: X)) (hX : f ∉ X) :
    Built m₀ (m.pfaFree (4096 * f)) d X := by
  obtain ⟨hfree, howns⟩ := hb.loose f List.mem_cons_self
  have hslots : (m.pfaFree (4096 * f)).slots d = m.slots d := rfl
  refine ⟨hb.before, ⟨hb.same.1, hb.same.2, hb.same.3, hb.same.4, hb.same.5, ?_, ?_⟩, hb.kernel, hb.high,
    hb.separate, hb.filled, hb.fresh, fun g hg => hb.loose g (List.mem_cons_of_mem _ hg), ?_, hb.phys⟩
  · simpa [pfaFree] using hb.same.startFrame
  · simpa [pfaFree] using hb.same.totalFrames
  · intro g
    show (m.pfa.pfaFree (4096 * f)).used g = true ↔ _
    rw [used_pfaFree_frame, hb.used g, hslots]
    have hman : m.pfa.startFrame ≤ f ∧ f < m.pfa.totalFrames := by
      rw [hb.same.startFrame, hb.same.totalFrames]
      exact ⟨hfree.1, hfree.2.1⟩
    by_cases hgf : f = g
    · subst hgf
      simp [hman, howns, hX, hfree.2.2]
    · simp only [hgf, false_and, not_false_eq_true, and_true, List.mem_cons]
      have hgf' : g ≠ f := fun h => hgf h.symm
      tauto

/-! ## Writing frames and entries -/

/-- Frames other than the directory and the tables may be written at will. -/
theorem Built.write (hb : Built m₀ m d X) {f : Nat} {phys : ByteMemory}
    (hwrite : ∀ g, g ≠ f → ByteMemory.BlockEq m.phys phys g) (hfree : m₀.pfa.Free f)
    (hdir : f ≠ d) (htable : ∀ i, m.slots d (.table i) ≠ some f) :
    Built m₀ { m with phys := phys } d X ∧
      ({ m with phys := phys } : Memory).slots d = m.slots d := by
  have hd : ByteMemory.BlockEq m.phys phys d := hwrite d hdir.symm
  have hslots : ({ m with phys := phys } : Memory).slots d = m.slots d :=
    slotFrame_congr hd fun i t ht => hwrite t fun htf => htable i (htf ▸ ht)
  refine ⟨⟨hb.before, ⟨hb.same.1, hb.same.2, hb.same.3, hb.same.4, hb.same.5, hb.same.6, hb.same.7⟩, ?_, ?_, ?_,
    ?_, ?_, ?_, ?_, ?_⟩, hslots⟩
  · exact (hd.word (by norm_num)).symm.trans hb.kernel
  · intro i hlo hhi
    exact (hd.word hhi).symm.trans (hb.high i hlo hhi)
  · rw [hslots]
    exact hb.separate
  · rw [hslots]
    exact hb.filled
  · rw [hslots]
    exact hb.fresh
  · rw [hslots]
    exact hb.loose
  · rw [hslots]
    exact hb.used
  · intro g hg
    exact (hb.phys g hg).trans (hwrite g fun hgf => hg (hgf ▸ hfree))

/-- A frame that is not entered yet may be written at will. -/
theorem Built.write_loose (hb : Built m₀ m d X) {f : Nat} (hf : f ∈ X) {phys : ByteMemory}
    (hwrite : ∀ g, g ≠ f → ByteMemory.BlockEq m.phys phys g) :
    Built m₀ { m with phys := phys } d X ∧
      ({ m with phys := phys } : Memory).slots d = m.slots d := by
  obtain ⟨hfree, howns⟩ := hb.loose f hf
  refine hb.write hwrite hfree ?_ fun i hi => howns (hb.owns_slot hi)
  rintro rfl
  exact howns hb.dir_owned

/-- A page may be written at will. -/
theorem Built.write_page (hb : Built m₀ m d X) {i j f : Nat}
    (hf : m.slots d (.page i j) = some f) {phys : ByteMemory}
    (hwrite : ∀ g, g ≠ f → ByteMemory.BlockEq m.phys phys g) :
    Built m₀ { m with phys := phys } d X ∧
      ({ m with phys := phys } : Memory).slots d = m.slots d := by
  have howns := hb.owns_slot hf
  refine hb.write hwrite (hb.fresh f howns) ?_ fun i' hi' => ?_
  · rintro rfl
    cases hb.separate _ _ f howns.1 hf (slotFrame_dir : m.slots f .dir = some f)
  · cases hb.separate _ _ f howns.1 hf hi'

/-- The slots after one more entry: what changes in the relation. -/
theorem Built.enter {f : Nat} (hb : Built m₀ m d (f :: X)) (hX : f ∉ X) {s : Slot}
    {phys : ByteMemory} (hs : m.slots d s = none)
    (hslots : ({ m with phys := phys } : Memory).slots d =
      Function.update (m.slots d) s (some f))
    (hdir : ∀ i, 768 ≤ i → i < 1024 → phys.word d i = m.phys.word d i)
    (hphys : ∀ g, ¬ m₀.pfa.Free g → ByteMemory.BlockEq m.phys phys g) :
    Built m₀ { m with phys := phys } d X := by
  obtain ⟨hfree, howns⟩ := hb.loose f List.mem_cons_self
  have hf0 : f ≠ 0 := (hb.bounds hfree).1
  have hnot : ∀ s', m.slots d s' ≠ some f := fun s' h => howns ⟨hf0, s', h⟩
  refine ⟨hb.before, ⟨hb.same.1, hb.same.2, hb.same.3, hb.same.4, hb.same.5, hb.same.6, hb.same.7⟩, ?_, ?_, ?_,
    ?_, ?_, ?_, ?_, ?_⟩
  · exact (hdir 768 le_rfl (by norm_num)).trans hb.kernel
  · intro i hlo hhi
    exact (hdir i hlo.le hhi).trans (hb.high i hlo hhi)
  · rw [hslots]
    exact hb.separate.update hnot
  · intro s'
    rw [hslots]
    by_cases hss : s' = s
    · rw [hss, Function.update_self]
      simpa using hf0
    · rw [Function.update_of_ne hss]
      exact hb.filled s'
  · intro g hg
    rw [hslots, owns_update hs hf0] at hg
    rcases hg with rfl | hg
    · exact hfree
    · exact hb.fresh g hg
  · intro g hg
    obtain ⟨hgfree, hgowns⟩ := hb.loose g (List.mem_cons_of_mem _ hg)
    refine ⟨hgfree, ?_⟩
    rw [hslots, owns_update hs hf0]
    rintro (rfl | h)
    · exact hX hg
    · exact hgowns h
  · intro g
    show m.pfa.used g = true ↔ _
    rw [hb.used g, hslots, owns_update hs hf0, List.mem_cons]
    tauto
  · intro g hg
    exact (hb.phys g hg).trans (hphys g hg)

/-- The address of a frame with flags in its low bits. -/
theorem entry_parts {f flags : Nat} (hf : f < 2 ^ 20) (hflags : flags < 4096)
    (hodd : flags % 2 = 1) :
    4096 * f ||| flags = 4096 * f + flags ∧ (4096 * f + flags) % 2 = 1 ∧
      (4096 * f + flags) / 4096 = f ∧ 4096 * f + flags < 2 ^ 32 :=
  ⟨frame_or_flags f hflags, by omega, by omega, by omega⟩

/-- Entering a cleared table into the directory. -/
theorem Built.enterTable {t i flags : Nat} (hb : Built m₀ m d (t :: X)) (hX : t ∉ X)
    (hzero : ∀ j, j < 1024 → m.phys.word t j = 0) (hi : i < 768)
    (hfree : m.slots d (.table i) = none) (hflags : flags < 4096) (hodd : flags % 2 = 1) :
    Built m₀ (m.pokeWord (4096 * d) i (4096 * t ||| flags)) d X ∧
      (m.pokeWord (4096 * d) i (4096 * t ||| flags)).slots d =
        Function.update (m.slots d) (.table i) (some t) ∧
      (m.pokeWord (4096 * d) i (4096 * t ||| flags)).phys =
        m.phys.setWord d i (4096 * t + flags) ∧
      (m.pokeWord (4096 * d) i (4096 * t ||| flags)).pfa = m.pfa := by
  obtain ⟨htfree, htowns⟩ := hb.loose t List.mem_cons_self
  obtain ⟨-, ht20⟩ := hb.bounds htfree
  obtain ⟨hor, hvodd, hvdiv, hv⟩ := entry_parts ht20 hflags hodd
  have hd := hb.bounds hb.dir_free
  have htd : t ≠ d := by
    rintro rfl
    exact htowns hb.dir_owned
  have hslots : ({ m with phys := m.phys.setWord d i (4096 * t + flags) } : Memory).slots d =
      Function.update (m.slots d) (.table i) (some t) :=
    slotFrame_setTable (by omega) (by omega) hv hvodd hvdiv hfree hzero htd
      fun i' t' h => hb.table_ne_dir h
  rw [hor, pokeWord_eq hb.ok.closed hd.2]
  refine ⟨hb.enter hX hfree hslots ?_ ?_, hslots, rfl, rfl⟩
  · intro i' hlo hhi
    rw [ByteMemory.word_setWord m.phys hv (by omega) hhi, if_neg (by omega)]
  · intro g hg
    have hgd : g ≠ d := fun h => hg (h ▸ hb.dir_free)
    exact (ByteMemory.blockEq_setWord m.phys (by omega) hgd).symm

/-- Entering a page into a table of the space. -/
theorem Built.enterPage {f t i j flags : Nat} (hb : Built m₀ m d (f :: X)) (hX : f ∉ X)
    (ht : m.slots d (.table i) = some t) (hj : j < 1024)
    (hfree : m.slots d (.page i j) = none) (hflags : flags < 4096) (hodd : flags % 2 = 1) :
    Built m₀ (m.pokeWord (4096 * t) j (4096 * f ||| flags)) d X ∧
      (m.pokeWord (4096 * t) j (4096 * f ||| flags)).slots d =
        Function.update (m.slots d) (.page i j) (some f) ∧
      (m.pokeWord (4096 * t) j (4096 * f ||| flags)).phys =
        m.phys.setWord t j (4096 * f + flags) ∧
      (m.pokeWord (4096 * t) j (4096 * f ||| flags)).pfa = m.pfa := by
  obtain ⟨hffree, -⟩ := hb.loose f List.mem_cons_self
  obtain ⟨-, hf20⟩ := hb.bounds hffree
  obtain ⟨hor, hvodd, hvdiv, hv⟩ := entry_parts hf20 hflags hodd
  have htfree := hb.fresh t (hb.owns_slot ht)
  have ht20 := (hb.bounds htfree).2
  have hslots : ({ m with phys := m.phys.setWord t j (4096 * f + flags) } : Memory).slots d =
      Function.update (m.slots d) (.page i j) (some f) :=
    slotFrame_setPage ht hj hv hvodd hvdiv (hb.table_ne_dir ht) fun i' h => hb.table_once ht h
  rw [hor, pokeWord_eq hb.ok.closed ht20]
  refine ⟨hb.enter hX hfree hslots ?_ ?_, hslots, rfl, rfl⟩
  · intro i' hlo hhi
    rw [ByteMemory.word_setWord m.phys hv hj hhi,
      if_neg (fun h => hb.table_ne_dir ht h.1.symm)]
  · intro g hg
    have hgt : g ≠ t := fun h => hg (h ▸ htfree)
    exact (ByteMemory.blockEq_setWord m.phys hj hgt).symm

/-! ## Beginning and giving up -/

/-- The memory after a construction that was given up: no frame is lost, and the
frames that were in use have their bytes. -/
structure Restored (m₀ m : Memory) : Prop where
  same : MemSame m₀ m
  used : ∀ f, m.pfa.used f = m₀.pfa.used f
  phys : ∀ f, ¬ m₀.pfa.Free f → ByteMemory.BlockEq m₀.phys m.phys f

/-- Giving up a construction that has entered every frame it took. -/
theorem Built.destroy (hb : Built m₀ m d []) (hcr3 : 4096 * d ≠ m₀.cr3) :
    Restored m₀ (m.destroyUserSpace (4096 * d)) := by
  have hd := hb.bounds hb.dir_free
  have hman : ∀ f, Owns (m.slots d) f → m.Managed f := by
    intro f hf
    have hfree := hb.fresh f hf
    exact ⟨hb.same.startFrame ▸ hfree.1, hb.same.totalFrames ▸ hfree.2.1⟩
  obtain ⟨p, phys, hres, hstart, htotal, -, hphys, hused⟩ :=
    destroyUserSpace_spec hb.ok hd.1 hd.2 hb.separate hman
  rw [hres]
  refine ⟨⟨hb.same.1, hb.same.2, hb.same.3, hb.same.4, ?_, hstart.trans hb.same.6,
    htotal.trans hb.same.7⟩, fun f => ?_, fun f hf => ?_⟩
  · rw [hb.same.cr3, decide_eq_false hcr3, Bool.or_false]
    exact hb.same.destroyedLoaded
  · have hiff : p.used f = true ↔ m₀.pfa.used f = true := by
      rw [hused, hb.used]
      constructor
      · rintro ⟨h | h | h, hno⟩
        · exact h
        · exact absurd h hno
        · cases h
      · intro h
        refine ⟨.inl h, fun ho => ?_⟩
        rw [(hb.fresh f ho).2.2] at h
        cases h
    exact Bool.eq_iff_iff.2 hiff
  · exact (hb.phys f hf).trans (hphys f fun h => hf (h ▸ hb.dir_free))

/-- An allocation that fails leaves memory as it was. -/
theorem restored_of_exhausted (m : Memory) :
    Restored m { m with pfa := { m.pfa with exhausted := true } } :=
  ⟨⟨rfl, rfl, rfl, rfl, rfl, rfl, rfl⟩, fun _ => rfl, fun _ _ => ByteMemory.BlockEq.refl _ _⟩

/-- {lit}`create_user_pdt` clears a frame and copies the kernel's entry. -/
theorem createUserPdt_eq {d : Nat} {p : Pfa} (h : m₀.WindowClosed) (hd0 : d ≠ 0) (hd : d < 2 ^ 20)
    (hrun : m₀.pfa.pfaAlloc = (4096 * d, p)) :
    m₀.createUserPdt = (4096 * d, { m₀ with
      pfa := p
      phys := (m₀.phys.fill (4096 * d) 4096 0).setWord d 768 (m₀.pageDirectory 768) }) := by
  have hclosed : ∀ (p : Pfa) (phys : ByteMemory),
      ({ m₀ with pfa := p, phys := phys } : Memory).WindowClosed := fun _ _ => h
  simp only [createUserPdt, allocZeroedFrame, pfaAlloc, hrun]
  have hne : ¬ 4096 * d = 0 := by omega
  simp only [if_neg hne, zeroPage_eq (hclosed _ _) hd, pokeWord_eq (hclosed _ _) hd]

/-- Beginning a space with {lit}`create_user_pdt`. -/
theorem createUserPdt_cases (hok : MemOk m₀) (hpde : m₀.pageDirectory 768 < 2 ^ 32) :
    (∃ d m, m₀.createUserPdt = (4096 * d, m) ∧ Built m₀ m d [] ∧
        (∀ s, m.slots d s = if s = .dir then some d else none) ∧
        m.pfa.freeCount + 1 = m₀.pfa.freeCount ∧ m.pfa.exhausted = m₀.pfa.exhausted ∧
        ∀ f, f ≠ d → ByteMemory.BlockEq m₀.phys m.phys f) ∨
      (m₀.pfa.freeCount = 0 ∧
        m₀.createUserPdt = (0, { m₀ with pfa := { m₀.pfa with exhausted := true } })) := by
  rcases m₀.pfa.freeCount_pfaAlloc with ⟨d, hd, halloc, hcount⟩ | ⟨hcount, halloc⟩
  · obtain ⟨hd0, hd20⟩ := hok.managed (Free.managed hd)
    have hrun := createUserPdt_eq hok.closed hd0 hd20 halloc
    have hwords : ∀ i, i < 1024 → ((m₀.phys.fill (4096 * d) 4096 0).setWord d 768
        (m₀.pageDirectory 768)).word d i = if i = 768 then m₀.pageDirectory 768 else 0 := by
      intro i hi
      rw [ByteMemory.word_setWord _ hpde (by norm_num) hi]
      by_cases h : i = 768
      · simp [h]
      · rw [if_neg (fun hc => h hc.2), if_neg h, ByteMemory.word_fill_zero _ hi]
    have hslots : ∀ s, ({ m₀ with
        pfa := { m₀.pfa with bitmap := m₀.pfa.bitmap.set d }
        phys := (m₀.phys.fill (4096 * d) 4096 0).setWord d 768 (m₀.pageDirectory 768) } :
          Memory).slots d s = if s = .dir then some d else none := by
      refine slotFrame_empty fun i hi hs => ?_
      rw [hwords i hi, if_neg hs]
    have howns : ∀ f, Owns (({ m₀ with
        pfa := { m₀.pfa with bitmap := m₀.pfa.bitmap.set d }
        phys := (m₀.phys.fill (4096 * d) 4096 0).setWord d 768 (m₀.pageDirectory 768) } :
          Memory).slots d) f ↔ f = d := by
      intro f
      constructor
      · rintro ⟨-, s, hs⟩
        rw [hslots] at hs
        split at hs
        · exact (Option.some.inj hs).symm
        · cases hs
      · rintro rfl
        exact ⟨hd0, .dir, rfl⟩
    have hkept : ∀ f, f ≠ d → ByteMemory.BlockEq m₀.phys
        ((m₀.phys.fill (4096 * d) 4096 0).setWord d 768 (m₀.pageDirectory 768)) f := fun f hfd =>
      (ByteMemory.blockEq_fill m₀.phys hfd).symm.trans
        (ByteMemory.blockEq_setWord _ (by norm_num) hfd).symm
    refine .inl ⟨d, _, hrun, ⟨hok, ⟨rfl, rfl, rfl, rfl, rfl, rfl, rfl⟩, ?_, ?_, ?_, ?_, ?_, by simp, ?_,
      fun f hf => hkept f fun h => hf (h ▸ hd)⟩, hslots, ?_, rfl, hkept⟩
    · rw [hwords 768 (by norm_num), if_pos rfl]
    · intro i hlo hhi
      rw [hwords i hhi, if_neg (by omega)]
    · intro s s' f _ hs hs'
      rw [hslots] at hs hs'
      split at hs <;> split at hs'
      · rename_i h h'
        rw [h, h']
      · cases hs'
      · cases hs
      · cases hs
    · intro s
      rw [hslots]
      split
      · simpa using hd0
      · simp
    · intro f hf
      rw [(howns f).1 hf]
      exact hd
    · intro f
      rw [howns]
      show ({ m₀.pfa with bitmap := m₀.pfa.bitmap.set d } : Pfa).used f = true ↔ _
      rw [Pfa.used_mk_set m₀.pfa d f m₀.pfa.exhausted]
      simp only [Bool.or_eq_true, decide_eq_true_eq, List.not_mem_nil, or_false]
      rw [eq_comm (a := d)]
    · rw [halloc] at hcount
      exact hcount
  · refine .inr ⟨hcount, ?_⟩
    simp only [createUserPdt, allocZeroedFrame, pfaAlloc, halloc, if_true]

/-! ## What entries hold -/

/-- The table entry for page {lit}`j` behind directory entry {lit}`i`, 0 without a table. -/
def pte (phys : ByteMemory) (d i j : Nat) : Nat :=
  if phys.word d i % 2 = 1 then phys.word (phys.word d i / 4096) j else 0

/-- The place of a table. -/
theorem slots_table (m : Memory) (d : Nat) {i : Nat} (hi : i < 768) :
    m.slots d (.table i) = entryFrame (m.phys.word d i) :=
  slotFrame_table (by omega) (by omega)

/-- The place of a page. -/
theorem slots_page (m : Memory) (d : Nat) {i j : Nat} (hi : i < 768) (hj : j < 1024) :
    m.slots d (.page i j) = entryFrame (pte m.phys d i j) := by
  have htable := slots_table m d hi
  by_cases hodd : m.phys.word d i % 2 = 1
  · rw [entryFrame_of_odd hodd] at htable
    rw [pte, if_pos hodd, slots, slotFrame_page htable hj]
  · rw [entryFrame, if_neg hodd] at htable
    rw [pte, if_neg hodd, slots, slotFrame_page_none htable, entryFrame_zero]

/-- An absent entry has no frame. -/
theorem entryFrame_eq_none {e : Nat} : entryFrame e = none ↔ ¬ e % 2 = 1 := by
  simp [entryFrame]

/-- An entry is a word. -/
theorem pte_lt (phys : ByteMemory) (d i j : Nat) : pte phys d i j < 2 ^ 32 := by
  unfold pte
  split
  · exact phys.word_lt _ _
  · norm_num

/-- From one memory to the next, the entries for a page and its bytes are the same. -/
structure EntryKept (b b' : ByteMemory) (d i j : Nat) : Prop where
  pde : b'.word d i = b.word d i
  pte : pte b' d i j = pte b d i j
  bytes : Memory.pte b d i j % 2 = 1 → ByteMemory.BlockEq b b' (Memory.pte b d i j / 4096)

/-- An entry that is kept twice is kept. -/
theorem EntryKept.trans {b b' b'' : ByteMemory} {d i j : Nat} (h : EntryKept b b' d i j)
    (h' : EntryKept b' b'' d i j) : EntryKept b b'' d i j := by
  refine ⟨h'.pde.trans h.pde, h'.pte.trans h.pte, fun hodd => ?_⟩
  have hbytes := h'.bytes (by rw [h.pte]; exact hodd)
  rw [h.pte] at hbytes
  exact (h.bytes hodd).trans hbytes

/-- Writing a frame that is neither the directory nor a table keeps every entry. -/
theorem entries_write {f : Nat} {phys : ByteMemory}
    (hdir : f ≠ d) (htable : ∀ i, m.slots d (.table i) ≠ some f)
    (hwrite : ∀ g, g ≠ f → ByteMemory.BlockEq m.phys phys g) {i j : Nat} (hi : i < 768)
    (hj : j < 1024) : phys.word d i = m.phys.word d i ∧ pte phys d i j = pte m.phys d i j := by
  have hword : m.phys.word d i = phys.word d i := (hwrite d hdir.symm).word (by omega)
  refine ⟨hword.symm, ?_⟩
  unfold pte
  rw [← hword]
  split
  · rename_i hodd
    have hslot := slots_table m d hi
    rw [entryFrame_of_odd hodd] at hslot
    refine ((hwrite _ fun h => ?_).word hj).symm
    rw [h] at hslot
    exact htable i hslot
  · rfl

/-- Writing a frame outside the space keeps every page. -/
theorem Built.kept_write (hb : Built m₀ m d X) {f : Nat} {phys : ByteMemory}
    (hf : ¬ Owns (m.slots d) f) (hwrite : ∀ g, g ≠ f → ByteMemory.BlockEq m.phys phys g)
    {i j : Nat} (hi : i < 768) (hj : j < 1024) : EntryKept m.phys phys d i j := by
  have hdir : f ≠ d := fun h => hf (h ▸ hb.dir_owned)
  obtain ⟨hpde, hpte⟩ :=
    entries_write hdir (fun i' h => hf (hb.owns_slot h)) hwrite hi hj
  refine ⟨hpde, hpte, fun hodd => ?_⟩
  have hpage := slots_page m d hi hj
  rw [entryFrame_of_odd hodd] at hpage
  exact hwrite _ fun h => hf (h ▸ hb.owns_slot hpage)

/-- Writing a page keeps every entry and every other page. -/
theorem Built.kept_write_page (hb : Built m₀ m d X) {i j f : Nat}
    (hf : m.slots d (.page i j) = some f) {phys : ByteMemory}
    (hwrite : ∀ g, g ≠ f → ByteMemory.BlockEq m.phys phys g) {i' j' : Nat} (hi : i' < 768)
    (hj : j' < 1024) :
    phys.word d i' = m.phys.word d i' ∧ pte phys d i' j' = pte m.phys d i' j' ∧
      (¬ (i' = i ∧ j' = j) → EntryKept m.phys phys d i' j') := by
  have hf0 := (hb.owns_slot hf).1
  have hdir : f ≠ d := by
    rintro rfl
    cases hb.separate _ _ f hf0 hf (slotFrame_dir : m.slots f .dir = some f)
  have htable : ∀ i, m.slots d (.table i) ≠ some f := by
    intro i h
    cases hb.separate _ _ f hf0 hf h
  obtain ⟨hpde, hpte⟩ := entries_write hdir htable hwrite hi hj
  refine ⟨hpde, hpte, fun hne => ⟨hpde, hpte, fun hodd => hwrite _ fun h => hne ?_⟩⟩
  have hpage := slots_page m d hi hj
  rw [entryFrame_of_odd hodd, h] at hpage
  have hslot := hb.separate _ _ f hf0 hpage hf
  simpa using hslot

/-- Entering a table keeps the pages behind the other entries of the directory. -/
theorem Built.kept_enterTable (hb : Built m₀ m d X) {i v : Nat} (hi : i < 768) (hv : v < 2 ^ 32)
    {i' j : Nat} (hi' : i' < 768) (hj : j < 1024) (hne : i' ≠ i) :
    EntryKept m.phys (m.phys.setWord d i v) d i' j := by
  have hdir : (m.phys.setWord d i v).word d i' = m.phys.word d i' := by
    rw [ByteMemory.word_setWord m.phys hv (by omega) (by omega), if_neg (fun h => hne h.2)]
  refine ⟨hdir, ?_, fun hodd => ?_⟩
  · unfold pte
    rw [hdir]
    split
    · rename_i hodd
      have htable := slots_table m d hi'
      rw [entryFrame_of_odd hodd] at htable
      rw [ByteMemory.word_setWord m.phys hv (by omega) hj,
        if_neg (fun h => hb.table_ne_dir htable h.1)]
    · rfl
  · have hpage := slots_page m d hi' hj
    rw [entryFrame_of_odd hodd] at hpage
    refine (ByteMemory.blockEq_setWord m.phys (by omega) ?_).symm
    intro hd
    rw [hd] at hpage
    cases hb.separate _ _ d hb.dir_owned.1 hpage (slotFrame_dir : m.slots d .dir = some d)

/-- Entering a page keeps the other pages. -/
theorem Built.kept_enterPage (hb : Built m₀ m d X) {i j t v : Nat}
    (ht : m.slots d (.table i) = some t) (hj : j < 1024) (hv : v < 2 ^ 32) {i' j' : Nat}
    (hi' : i' < 768) (hj' : j' < 1024) (hne : ¬ (i' = i ∧ j' = j)) :
    EntryKept m.phys (m.phys.setWord t j v) d i' j' := by
  have hdir : (m.phys.setWord t j v).word d i' = m.phys.word d i' := by
    rw [ByteMemory.word_setWord m.phys hv hj (by omega),
      if_neg (fun h => hb.table_ne_dir ht h.1.symm)]
  refine ⟨hdir, ?_, fun hodd => ?_⟩
  · unfold pte
    rw [hdir]
    split
    · rename_i hodd
      have htable := slots_table m d hi'
      rw [entryFrame_of_odd hodd] at htable
      rw [ByteMemory.word_setWord m.phys hv hj hj', if_neg]
      rintro ⟨htt, hjj⟩
      rw [htt] at htable
      exact hne ⟨hb.table_once ht htable, hjj⟩
    · rfl
  · have hpage := slots_page m d hi' hj'
    rw [entryFrame_of_odd hodd] at hpage
    refine (ByteMemory.blockEq_setWord m.phys hj ?_).symm
    intro htt
    rw [htt] at hpage
    cases hb.separate _ _ t (hb.owns_slot ht).1 hpage ht

/-- A page just entered. -/
theorem Built.pte_enterPage (hb : Built m₀ m d X) {i j t v : Nat} (hi : i < 768)
    (ht : m.slots d (.table i) = some t) (hj : j < 1024) (hv : v < 2 ^ 32) :
    pte (m.phys.setWord t j v) d i j = v ∧ (m.phys.setWord t j v).word d i = m.phys.word d i := by
  have hdir : (m.phys.setWord t j v).word d i = m.phys.word d i := by
    rw [ByteMemory.word_setWord m.phys hv hj (by omega),
      if_neg (fun h => hb.table_ne_dir ht h.1.symm)]
  obtain ⟨-, -, hodd, htw⟩ := slotFrame_table_some ht
  refine ⟨?_, hdir⟩
  rw [pte, hdir, if_pos hodd, ← htw, ByteMemory.word_setWord m.phys hv hj hj, if_pos ⟨rfl, rfl⟩]

/-- Taking one more frame and clearing it. -/
theorem Built.allocZeroed (hb : Built m₀ m d X) :
    (∃ t m₁, m.allocZeroedFrame = (4096 * t, m₁) ∧ t ∉ X ∧ ¬ Owns (m.slots d) t ∧
        m₀.pfa.Free t ∧ m₁.pfa.freeCount + 1 = m.pfa.freeCount ∧ Built m₀ m₁ d (t :: X) ∧
        m₁.slots d = m.slots d ∧ (∀ j, j < 1024 → m₁.phys.word t j = 0) ∧
        (∀ g, g ≠ t → ByteMemory.BlockEq m.phys m₁.phys g)) ∨
      (m.pfa.freeCount = 0 ∧
        ∃ m₁, m.allocZeroedFrame = (0, m₁) ∧ m₁.phys = m.phys ∧ Built m₀ m₁ d X) := by
  unfold allocZeroedFrame
  rcases hb.alloc with ⟨t, m₁, halloc, htX, htown, htfree, hphys, hcount, hb₁⟩ |
    ⟨hzero, m₁, halloc, hphys, hb₁⟩
  · obtain ⟨ht0, ht20⟩ := hb.bounds htfree
    have hslots : m₁.slots d = m.slots d := by
      rw [slots, hphys]
      rfl
    have hne : ¬ 4096 * t = 0 := by omega
    obtain ⟨hb₂, hslots₂⟩ := hb₁.write_loose List.mem_cons_self
      (fun g hg => (ByteMemory.blockEq_fill m₁.phys hg).symm)
    refine .inl ⟨t, { m₁ with phys := m₁.phys.fill (4096 * t) 4096 0 }, ?_, htX, htown, htfree,
      hcount, hb₂, hslots₂.trans hslots, fun j hj => ByteMemory.word_fill_zero _ hj,
      fun g hg => ?_⟩
    · simp only [halloc, if_neg hne, zeroPage_eq hb₁.ok.closed ht20]
    · rw [← hphys]
      exact (ByteMemory.blockEq_fill m₁.phys hg).symm
  · refine .inr ⟨hzero, m₁, ?_, hphys, hb₁⟩
    simp only [halloc, if_true]

/-- A draw that succeeds is not counted as a failure. -/
theorem Built.allocZeroed_exhausted (hb : Built m₀ m d X) {x : Nat} {m₁ : Memory}
    (h : m.allocZeroedFrame = (x, m₁)) (hx : x ≠ 0) : m₁.pfa.exhausted = m.pfa.exhausted := by
  unfold allocZeroedFrame at h
  rcases hb.alloc with ⟨t, m₂, halloc, -, -, htfree, -, -, hb₂⟩ | ⟨-, m₂, halloc, -⟩
  · obtain ⟨ht0, ht20⟩ := hb.bounds htfree
    have hne : ¬ 4096 * t = 0 := by omega
    simp only [halloc, if_neg hne, zeroPage_eq hb₂.ok.closed ht20, Prod.mk.injEq] at h
    rw [← h.2, ← pfaAlloc_exhausted halloc hne]
  · simp only [halloc, if_true, Prod.mk.injEq] at h
    exact absurd h.1.symm hx

end Built

end Memory

end SoKernel
