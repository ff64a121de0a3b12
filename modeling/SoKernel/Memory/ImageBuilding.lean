import SoKernel.Memory.SpaceBuilding

/-!
# Building the image of a module

{lit}`build_new_image` loads a module page by page and adds a stack page.  The source
of the copy may start anywhere in a page; each chunk stays within one source page.

Main results:

- Theorem {lit}`copyPhysRegionToFrame_eq`: the chunks copy the region exactly and the
  rest of the frame is zero.
- Theorem {lit}`buildNewImage_spec`: the new space has the module's bytes and an empty
  stack page and nothing else, or every frame is given back; the latter only when the
  range is empty or the frames do not suffice.
-/

namespace SoKernel

namespace Memory

section Chunks

variable {m : Memory} {f a size : Nat}

/-- The loop writes only the frame; a source apart from the frame is copied exactly. -/
theorem copyRegion_eq (h : m.WindowClosed) (hf : f < 2 ^ 20) (hsize : size ≤ 4096) :
    ∃ phys : ByteMemory, m.copyRegion (4096 * f) a size = { m with phys := phys } ∧
      (∀ g, g ≠ f → ByteMemory.BlockEq m.phys phys g) ∧
      (a + size ≤ 2 ^ 32 → (∀ x, a ≤ x → x < a + size → x / 4096 ≠ f) →
        phys = m.phys.store (4096 * f) size fun i => m.phys (a + i)) := by
  unfold copyRegion
  generalize hrun : whileLoop size _ _ (0, m) = t
  -- The invariant: the bytes below {lit}`copied` are stored.
  have hloop : (t.1 ≤ size ∧ ∃ phys : ByteMemory, t.2 = { m with phys := phys } ∧
      (∀ g, g ≠ f → ByteMemory.BlockEq m.phys phys g) ∧
      (a + size ≤ 2 ^ 32 → (∀ x, a ≤ x → x < a + size → x / 4096 ≠ f) →
        phys = m.phys.store (4096 * f) t.1 fun i => m.phys (a + i))) ∧
      decide (t.1 < size) = false := by
    subst hrun
    refine whileLoop_induct (fun t : Nat × Memory => t.1 ≤ size ∧
      ∃ phys : ByteMemory, t.2 = { m with phys := phys } ∧
      (∀ g, g ≠ f → ByteMemory.BlockEq m.phys phys g) ∧
      (a + size ≤ 2 ^ 32 → (∀ x, a ≤ x → x < a + size → x / 4096 ≠ f) →
        phys = m.phys.store (4096 * f) t.1 fun i => m.phys (a + i)))
      (fun t => size - t.1) (by simp)
      ⟨by simp, m.phys, rfl, fun _ _ => ByteMemory.BlockEq.refl _ _, by simp⟩ ?_ ?_
    · rintro ⟨c, mm⟩ ⟨hc, phys, hmm, hout, hstored⟩ hlt
      simp only [decide_eq_true_eq] at hc hmm hstored hlt
      subst hmm
      have hclosed : ({ m with phys := phys } : Memory).WindowClosed := h
      have hu : u32 (a + c) < 2 ^ 32 := Nat.mod_lt _ (by norm_num)
      have hpage : u32 (a + c) / 4096 < 2 ^ 20 := by omega
      have hoff := Nat.mod_lt (u32 (a + c)) (show 4096 > 0 by norm_num)
      simp only [frameBits_eq hu, flagBits_eq, loadBytes_eq hclosed hpage,
        storeBytes_eq hclosed hf]
      refine ⟨⟨by omega, _, rfl, fun g hg => ?_, fun ha hsrc => ?_⟩, by omega⟩
      · refine (hout g hg).trans fun x hx => ?_
        simp only [ByteMemory.store]
        rw [if_neg (by omega)]
      · have hmod : u32 (a + c) = a + c := Nat.mod_eq_of_lt (by omega)
        rw [hstored ha hsrc, hmod, ByteMemory.store_append]
        intro i hi
        have hread : 4096 * ((a + c) / 4096) + (a + c) % 4096 + i = a + (c + i) := by omega
        have hne := hsrc (a + (c + i)) (by omega) (by omega)
        rw [if_pos hi, hread]
        simp only [ByteMemory.store]
        rw [if_neg (by omega)]
    · rintro ⟨c, mm⟩ ⟨hc, -⟩ hzero
      simp only at hc hzero
      simp only [decide_eq_false_iff_not]
      omega
  obtain ⟨⟨hle, phys, hmem, hout, hstored⟩, hdone⟩ := hloop
  simp only [decide_eq_false_iff_not] at hdone
  have hend : t.1 = size := by omega
  rw [hend] at hstored
  exact ⟨phys, hmem, hout, hstored⟩

/-- The frame gets the bytes of the region, and zeros behind them. -/
theorem copyPhysRegionToFrame_eq (a : Nat) (h : m.WindowClosed) (hf : f < 2 ^ 20)
    (hsize : size ≤ 4096) :
    ∃ phys : ByteMemory, m.copyPhysRegionToFrame (4096 * f) a size = (0, { m with phys := phys }) ∧
      (∀ g, g ≠ f → ByteMemory.BlockEq m.phys phys g) ∧
      (a + size ≤ 2 ^ 32 → (∀ x, a ≤ x → x < a + size → x / 4096 ≠ f) →
        ∀ o, o < 4096 → phys (4096 * f + o) = if o < size then m.phys (a + o) else 0) := by
  have hclosed : ({ m with phys := m.phys.fill (4096 * f) 4096 0 } : Memory).WindowClosed := h
  obtain ⟨phys, hcopy, hout, hstored⟩ := copyRegion_eq (a := a) hclosed hf hsize
  refine ⟨phys, ?_, fun g hg => ?_, fun ha hsrc o ho => ?_⟩
  · rw [copyPhysRegionToFrame, if_neg (by omega), zeroPage_eq h hf, hcopy]
  · exact (ByteMemory.blockEq_fill m.phys hg).symm.trans (hout g hg)
  · rw [hstored ha hsrc]
    simp only [ByteMemory.store]
    by_cases hos : o < size
    · have hne := hsrc (a + o) (by omega) (by omega)
      rw [if_pos (by omega), if_pos hos, Nat.add_sub_cancel_left, ByteMemory.fill,
        if_neg (by omega)]
    · rw [if_neg (by omega), if_neg hos, ByteMemory.fill, if_pos (by omega)]

theorem clearStack_eq (h : m.WindowClosed) (hf : f < 2 ^ 20) :
    m.clearStack (4096 * f) = { m with phys := m.phys.fill (4096 * f) 4096 0 } := by
  have hword : ∀ i, i < 1024 → (m.phys.fill (4096 * f) 4096 0).setWord f i 0 =
      m.phys.fill (4096 * f) 4096 0 := by
    intro i hi
    funext x
    simp only [ByteMemory.setWord, ByteMemory.write32, ByteMemory.fill]
    norm_num
    split_ifs <;> first | rfl | omega
  unfold clearStack
  rw [pagingTempMap_eq m hf]
  simp only [opened_zeroBytes m hf, opened_writeWord _ hf, hword ((4096 - 8) / 4) (by norm_num),
    hword ((4096 - 8) / 4 + 1) (by norm_num)]
  exact opened_pagingTempUnmap (m := { m with phys := m.phys.fill (4096 * f) 4096 0 }) h f

end Chunks

/-! ## Mapping a page -/

section Image

variable {m₀ m : Memory} {d : Nat}

/-- Every table of the space is entered with the flags of {lit}`map_user_page`. -/
def UserTables (phys : ByteMemory) (d : Nat) : Prop :=
  ∀ i, i < 768 → phys.word d i % 2 = 1 → phys.word d i % 4096 = 7

/-- What {lit}`map_user_page` leaves after success: one more page, all others as before. -/
structure Mapped (m₀ m m' : Memory) (d i j f : Nat) : Prop where
  built : Built m₀ m' d []
  page : m'.slots d (.page i j) = some f
  entry : pte m'.phys d i j = 4096 * f + 7
  others : ∀ i' j', i' < 768 → j' < 1024 → ¬ (i' = i ∧ j' = j) →
    EntryKept m.phys m'.phys d i' j' ∨
      (pte m.phys d i' j' = 0 ∧ pte m'.phys d i' j' = 0)
  tables : UserTables m'.phys d
  present : ∀ i', i' < 768 → (m'.phys.word d i' % 2 = 1 ↔ i' = i ∨ m.phys.word d i' % 2 = 1)
  bytes : ByteMemory.BlockEq m.phys m'.phys f
  count : m'.pfa.freeCount + (if m.phys.word d i % 2 = 1 then 0 else 1) = m.pfa.freeCount
  exhausted : m'.pfa.exhausted = m.pfa.exhausted

/-- Entering a page into a table that the space has. -/
theorem Built.mapInTable {f i j t : Nat} (hb : Built m₀ m d [f]) (hi : i < 768) (hj : j < 1024)
    (ht : m.slots d (.table i) = some t) (hfree : m.slots d (.page i j) = none)
    (htables : UserTables m.phys d) :
    Mapped m₀ m (m.pokeWord (4096 * t) j (4096 * f ||| 7)) d i j f := by
  obtain ⟨hffree, hfown⟩ := hb.loose f List.mem_cons_self
  obtain ⟨hf0, hf20⟩ := hb.bounds hffree
  obtain ⟨hb', hslots, hphys, hpfa⟩ :=
    hb.enterPage List.not_mem_nil ht hj hfree (show 7 < 4096 by norm_num) rfl
  have hv : 4096 * f + 7 < 2 ^ 32 := by omega
  obtain ⟨hpte, hpde⟩ := hb.pte_enterPage hi ht hj hv
  have hft : f ≠ t := fun h => hfown (h ▸ hb.owns_slot ht)
  have hword : ∀ i', i' < 768 →
      (m.pokeWord (4096 * t) j (4096 * f ||| 7)).phys.word d i' = m.phys.word d i' := by
    intro i' hi'
    rw [hphys, ByteMemory.word_setWord _ hv hj (by omega),
      if_neg (fun h => hb.table_ne_dir ht h.1.symm)]
  have hodd : m.phys.word d i % 2 = 1 := (slotFrame_table_some ht).2.2.1
  refine ⟨hb', ?_, ?_, fun i' j' hi' hj' hne => .inl ?_, fun i' hi' hodd' => ?_, fun i' hi' => ?_,
    ?_, ?_, ?_⟩
  · rw [hslots, Function.update_self]
  · rw [hphys, hpte]
  · rw [hphys]
    exact hb.kept_enterPage ht hj hv hi' hj' hne
  · rw [hword i' hi'] at hodd' ⊢
    exact htables i' hi' hodd'
  · rw [hword i' hi']
    refine ⟨.inr, ?_⟩
    rintro (rfl | h)
    · exact hodd
    · exact h
  · rw [hphys]
    exact (ByteMemory.blockEq_setWord m.phys hj hft).symm
  · rw [hpfa, if_pos hodd, Nat.add_zero]
  · rw [hpfa]

/-- {lit}`map_user_page` maps the page, or there was no frame left for a table. -/
theorem Built.mapUserPage {f i j v : Nat} (hb : Built m₀ m d [f]) (hi : i < 768) (hj : j < 1024)
    (hvi : v / 2 ^ 22 = i) (hvj : v / 2 ^ 12 % 1024 = j)
    (hfree : m.slots d (.page i j) = none) (htables : UserTables m.phys d) :
    (∃ m', m.mapUserPage (4096 * d) v (4096 * f) = (true, m') ∧ Mapped m₀ m m' d i j f) ∨
      (m.pfa.freeCount = 0 ∧
        ∃ m', m.mapUserPage (4096 * d) v (4096 * f) = (false, m') ∧ Built m₀ m' d [f]) := by
  have hd := hb.bounds hb.dir_free
  obtain ⟨hffree, hfown⟩ := hb.loose f List.mem_cons_self
  obtain ⟨hf0, hf20⟩ := hb.bounds hffree
  have hslot := slots_table m d hi
  unfold Memory.mapUserPage
  simp only [hvi, hvj, peekWord_eq hb.ok.closed hd.2 i, present_eq,
    decide_eq_false_iff_not, frameBits_mul hf20]
  by_cases hodd : m.phys.word d i % 2 = 1
  · rw [if_neg (by simpa using hodd), frameBits_word]
    rw [entryFrame_of_odd hodd] at hslot
    exact .inl ⟨_, rfl, hb.mapInTable hi hj hslot hfree htables⟩
  · rw [if_pos (by simpa using hodd)]
    rw [entryFrame_eq_none.2 hodd] at hslot
    rcases hb.allocZeroed with
      ⟨t, m₁, halloc, htX, htown, htfree, hcount₁, hb₁, hslots₁, hcleared, hwrite⟩ |
      ⟨hzero, m₁, halloc, -, hb₁⟩
    · obtain ⟨ht0, ht20⟩ := hb.bounds htfree
      have hne : ¬ 4096 * t = 0 := by omega
      have htf : t ≠ f := by simpa using htX
      simp only [halloc, if_neg hne]
      have hslot₁ : m₁.slots d (.table i) = none := by rw [hslots₁, hslot]
      obtain ⟨hb₂, hslots₂, hphys₂, hpfa₂⟩ :=
        hb₁.enterTable htX hcleared hi hslot₁ (show 7 < 4096 by norm_num) rfl
      have hv : 4096 * t + 7 < 2 ^ 32 := by omega
      generalize m₁.pokeWord (4096 * d) i (4096 * t ||| 7) = m₂ at hb₂ hslots₂ hphys₂ hpfa₂ ⊢
      have hkeep : ∀ i' j', i' < 768 → j' < 1024 → i' ≠ i → EntryKept m.phys m₂.phys d i' j' := by
        intro i' j' hi' hj' hii
        rw [hphys₂]
        exact (hb.kept_write htown hwrite hi' hj').trans (hb₁.kept_enterTable hi hv hi' hj' hii)
      have hword : m₂.phys.word d i = 4096 * t + 7 := by
        rw [hphys₂, ByteMemory.word_setWord _ hv (by omega) (by omega), if_pos ⟨rfl, rfl⟩]
      have htables₂ : UserTables m₂.phys d := by
        intro i' hi' hodd'
        by_cases hii : i' = i
        · rw [hii, hword]
          omega
        · have hpde := (hkeep i' 0 hi' (by norm_num) hii).pde
          rw [hpde] at hodd' ⊢
          exact htables i' hi' hodd'
      have hslot₂ : m₂.slots d (.table i) = some t := by rw [hslots₂, Function.update_self]
      have hpage₂ : ∀ j', m₂.slots d (.page i j') = none := by
        intro j'
        rw [hslots₂, Function.update_of_ne (by simp), hslots₁]
        exact slotFrame_page_none hslot
      have hmapped := hb₂.mapInTable hi hj hslot₂ (hpage₂ j) htables₂
      refine .inl ⟨_, rfl, hmapped.built, hmapped.page, hmapped.entry, ?_, hmapped.tables, ?_, ?_,
        ?_, ?_⟩
      · intro i' j' hi' hj' hne'
        by_cases hii : i' = i
        · -- The table is new, so its other entries are empty.
          subst hii
          have hnew : pte m₂.phys d i' j' = 0 := by
            have hdt : (4096 * t + 7) / 4096 = t := by omega
            rw [pte, hword, if_pos (by omega), hdt, hphys₂,
              ByteMemory.word_setWord _ hv (by omega) hj', if_neg, hcleared j' hj']
            rintro ⟨htd, -⟩
            exact htown (htd ▸ hb.dir_owned)
          refine .inr ⟨by rw [pte, if_neg hodd], ?_⟩
          rcases hmapped.others i' j' hi' hj' hne' with hk | ⟨-, hz⟩
          · rw [hk.pte, hnew]
          · exact hz
        · rcases hmapped.others i' j' hi' hj' hne' with hk | ⟨hz₂, hz⟩
          · exact .inl ((hkeep i' j' hi' hj' hii).trans hk)
          · refine .inr ⟨?_, hz⟩
            rw [← (hkeep i' j' hi' hj' hii).pte, hz₂]
      · intro i' hi'
        rw [hmapped.present i' hi']
        by_cases hii : i' = i
        · simp [hii]
        · rw [(hkeep i' 0 hi' (by norm_num) hii).pde]
      · have hfd : f ≠ d := fun h => hfown (h ▸ hb.dir_owned)
        refine (hwrite f htf.symm).trans (ByteMemory.BlockEq.trans ?_ hmapped.bytes)
        rw [hphys₂]
        exact (ByteMemory.blockEq_setWord _ (by omega) hfd).symm
      · have hsame := hmapped.count
        rw [if_pos (by omega), hpfa₂] at hsame
        rw [if_neg hodd]
        omega
      · rw [hmapped.exhausted, hpfa₂, hb.allocZeroed_exhausted halloc hne]
    · simp only [halloc, if_true]
      exact .inr ⟨hzero, m₁, rfl, hb₁⟩

/-! ## Loading the pages of a module -/

/-- Page {lit}`q` has its part of the region of {lit}`size` bytes from {lit}`a` on, and zeros
behind the end of the region. -/
def PageBytes (src : ByteMemory) (a size : Nat) (phys : ByteMemory) (d q : Nat) : Prop :=
  ∀ o, o < 4096 → phys (4096 * (pte phys d (q / 1024) (q % 1024) / 4096) + o) =
    if 4096 * q + o < size then src (a + (4096 * q + o)) else 0

theorem PageBytes.kept {src phys phys' : ByteMemory} {a size q : Nat}
    (h : PageBytes src a size phys d q) (hk : EntryKept phys phys' d (q / 1024) (q % 1024))
    (hodd : pte phys d (q / 1024) (q % 1024) % 2 = 1) : PageBytes src a size phys' d q := by
  intro o ho
  rw [hk.pte, ← h o ho]
  exact (hk.bytes hodd _ (by omega)).symm

/-- A region of physical memory whose frames are not free. -/
structure Region (m₀ : Memory) (a size : Nat) : Prop where
  bound : a + size ≤ 2 ^ 32
  frames : ∀ x, a ≤ x → x < a + size → ¬ m₀.pfa.Free (x / 4096)

/-- The number of tables that the first {lit}`n` pages take. -/
def imageTables (n : Nat) : Nat :=
  (n + 1023) / 1024

/-- A table is taken with the first page behind it. -/
theorem imageTables_succ (n : Nat) :
    imageTables (n + 1) = imageTables n + if 1024 * (n / 1024) < n then 0 else 1 := by
  unfold imageTables
  split
  · omega
  · omega

/-- The state of {lit}`build_new_image` after {lit}`n` pages. -/
structure Imaging (m₀ : Memory) (d a size n : Nat) (m : Memory) : Prop where
  built : Built m₀ m d []
  flags : ∀ q, q < n → pte m.phys d (q / 1024) (q % 1024) % 4096 = 7
  bytes : Region m₀ a size → ∀ q, q < n → PageBytes m₀.phys a size m.phys d q
  ahead : ∀ i j, i < 768 → j < 1024 → n ≤ 1024 * i + j → ¬ pte m.phys d i j % 2 = 1
  tables : UserTables m.phys d
  present : ∀ i, i < 768 → (m.phys.word d i % 2 = 1 ↔ 1024 * i < n)
  count : m.pfa.freeCount + (1 + n + imageTables n) = m₀.pfa.freeCount
  exhausted : m.pfa.exhausted = m₀.pfa.exhausted

/-- The number of pages of an image. -/
def imagePages (size : Nat) : Nat :=
  (size + 4095) / 4096

/-- The number of frames that an image takes: the directory, the pages and their tables, the
stack page and its table. -/
def imageDemand (size : Nat) : Nat :=
  1 + imagePages size + imageTables (imagePages size) + 2

/-- What a failed construction promises. -/
def ImageFailed (m₀ : Memory) (size : Nat) (m : Memory) : Prop :=
  Restored m₀ m ∧ m₀.pfa.freeCount < imageDemand size

/-- The pages of an image are too few to reach the stack page. -/
theorem Imaging.low {a size n : Nat} (hi : Imaging m₀ d a size n m) : n < 16384 := by
  have hcount := hi.count
  have hle := m₀.pfa.freeCount_le
  have hwin := hi.built.before.window.2
  omega

/-- One pass of the loop of {lit}`build_new_image`. -/
theorem Imaging.load {a size n : Nat} (hi : Imaging m₀ d a size n m)
    (hcr3 : 4096 * d ≠ m₀.cr3) (hn : 4096 * n < size) :
    (∀ s, loadPage (4096 * d) a size (4096 * n, m) = .ok s →
      s.1 = min (4096 * (n + 1)) size ∧ Imaging m₀ d a size (n + 1) s.2) ∧
    (∀ e, loadPage (4096 * d) a size (4096 * n, m) = .error e → ImageFailed m₀ size e) := by
  have hb := hi.built
  have hlow := hi.low
  have hcount := hi.count
  have hpages : n < imagePages size := by
    unfold imagePages
    omega
  have hi768 : n / 1024 < 768 := by omega
  have hj : n % 1024 < 1024 := Nat.mod_lt _ (by norm_num)
  unfold loadPage
  rcases hb.alloc with ⟨f, m₁, halloc, -, hfown, hfree, hphys₁, hcount₁, hb₁⟩ |
    ⟨hzero, m₁, halloc, -, hb₁⟩
  · obtain ⟨hf0, hf20⟩ := hb.bounds hfree
    have hslots₁ : m₁.slots d = m.slots d := by
      rw [slots, hphys₁]
      rfl
    have hne : ¬ 4096 * f = 0 := by omega
    have hpage₁ : m₁.slots d (.page (n / 1024) (n % 1024)) = none := by
      rw [slots_page m₁ d hi768 hj, hphys₁, entryFrame_eq_none]
      exact hi.ahead _ _ hi768 hj (by omega)
    have htables₁ : UserTables m₁.phys d := by
      rw [hphys₁]
      exact hi.tables
    have hvi : 4096 * n / 2 ^ 22 = n / 1024 := by omega
    have hvj : 4096 * n / 2 ^ 12 % 1024 = n % 1024 := by omega
    simp only [halloc, if_neg hne]
    rcases hb₁.mapUserPage hi768 hj hvi hvj hpage₁ htables₁ with
      ⟨m₂, hmap, hm⟩ | ⟨hzero, m₂, hmap, hb₂⟩
    · have hb₂ := hm.built
      obtain ⟨phys, hcopy, hwrite, hbytes⟩ := copyPhysRegionToFrame_eq (u32 (a + 4096 * n))
        hb₂.ok.closed hf20 (show min 4096 (size - 4096 * n) ≤ 4096 by omega)
      simp only [hmap, hcopy, Bool.true_eq_false, if_false, lt_irrefl]
      refine ⟨?_, fun e he => by cases he⟩
      intro s hs
      rw [Except.ok.injEq] at hs
      rw [← hs]
      obtain ⟨hb₃, hslots₃⟩ := hb₂.write_page hm.page hwrite
      have hentries := fun {i' j'} (hi' : i' < 768) (hj' : j' < 1024) =>
        hb₂.kept_write_page hm.page hwrite hi' hj'
      have hentry : pte phys d (n / 1024) (n % 1024) = 4096 * f + 7 := by
        rw [(hentries hi768 hj).2.1, hm.entry]
      -- Every other page is as it was, or was and is unmapped.
      have hothers : ∀ i' j', i' < 768 → j' < 1024 → ¬ (i' = n / 1024 ∧ j' = n % 1024) →
          EntryKept m.phys phys d i' j' ∨
            (pte m.phys d i' j' = 0 ∧ pte phys d i' j' = 0) := by
        intro i' j' hi' hj' hne'
        have hkeep := (hentries hi' hj').2.2 hne'
        rw [← hphys₁]
        rcases hm.others i' j' hi' hj' hne' with hk | ⟨hz, hz'⟩
        · exact .inl (hk.trans hkeep)
        · exact .inr ⟨hz, hkeep.pte.trans hz'⟩
      -- A page loaded before is still there.
      have hkept : ∀ q, q < n → EntryKept m.phys phys d (q / 1024) (q % 1024) := by
        intro q hq
        rcases hothers (q / 1024) (q % 1024) (by omega) (Nat.mod_lt _ (by norm_num))
          (by omega) with hk | ⟨hz, -⟩
        · exact hk
        · have hflags := hi.flags q hq
          rw [hz] at hflags
          norm_num at hflags
      refine ⟨by simp only; omega, ⟨hb₃, fun q hq => ?_, fun hr q hq => ?_,
        fun i' j' hi' hj' hle => ?_, fun i' hi' hodd => ?_, fun i' hi' => ?_, ?_, ?_⟩⟩
      · by_cases hqn : q = n
        · rw [hqn]
          simp only [hentry]
          omega
        · rw [(hkept q (by omega)).pte]
          exact hi.flags q (by omega)
      · by_cases hqn : q = n
        · subst hqn
          have hdiv : (4096 * f + 7) / 4096 = f := by omega
          have hbound := hr.bound
          have hadd : u32 (a + 4096 * q) = a + 4096 * q := Nat.mod_eq_of_lt (by omega)
          rw [hadd] at hbytes
          intro o ho
          rw [hentry, hdiv]
          refine (hbytes (by omega) (fun x hlo hhi h => hr.frames x (by omega) (by omega)
            (h ▸ hfree)) o ho).trans ?_
          by_cases hos : 4096 * q + o < size
          · rw [if_pos (by omega), if_pos hos, Nat.add_assoc a]
            exact (hb₂.phys _ (hr.frames _ (by omega) (by omega)) _ rfl).symm
          · rw [if_neg (by omega), if_neg hos]
        · have hflags := hi.flags q (by omega)
          exact (hi.bytes hr q (by omega)).kept (hkept q (by omega)) (by omega)
      · rcases hothers i' j' hi' hj' (by omega) with hk | ⟨-, hz⟩
        · rw [hk.pte]
          exact hi.ahead i' j' hi' hj' (by omega)
        · simp [hz]
      · have hpde := (hentries hi' (show 0 < 1024 by norm_num)).1
        simp only at hodd ⊢
        rw [hpde] at hodd ⊢
        exact hm.tables i' hi' hodd
      · have hpde := (hentries hi' (show 0 < 1024 by norm_num)).1
        simp only
        rw [hpde, hm.present i' hi', hphys₁, hi.present i' hi']
        omega
      · have hmapped := hm.count
        simp only [hphys₁, hi.present _ hi768] at hmapped
        simp only [imageTables_succ]
        omega
      · exact hm.exhausted.trans ((pfaAlloc_exhausted halloc hne).trans hi.exhausted)
    · simp only [hmap, if_true]
      refine ⟨fun s hs => (by cases hs), ?_⟩
      intro e he
      rw [Except.error.injEq] at he
      rw [← he]
      refine ⟨(hb₂.free List.not_mem_nil).destroy hcr3, ?_⟩
      unfold imageDemand
      unfold imageTables at hcount ⊢
      omega
  · simp only [halloc, if_true]
    refine ⟨fun s hs => (by cases hs), ?_⟩
    intro e he
    rw [Except.error.injEq] at he
    rw [← he]
    refine ⟨hb₁.destroy hcr3, ?_⟩
    unfold imageDemand
    unfold imageTables at hcount ⊢
    omega

/-- The loop over the module. -/
theorem Imaging.loop {a size : Nat} (hi : Imaging m₀ d a size 0 m)
    (hcr3 : 4096 * d ≠ m₀.cr3) :
    (∀ s, tryWhile size (fun s => decide (s.1 < size)) (loadPage (4096 * d) a size) (0, m) =
        .ok s → Imaging m₀ d a size (imagePages size) s.2) ∧
      (∀ e, tryWhile size (fun s => decide (s.1 < size)) (loadPage (4096 * d) a size) (0, m) =
        .error e → ImageFailed m₀ size e) := by
  have hloop := @tryWhile_induct _ _ size (fun s : Nat × Memory => decide (s.1 < size))
    (loadPage (4096 * d) a size) (0, m)
    (fun s => ∃ n, s.1 = min (4096 * n) size ∧ 4096 * n < size + 4096 ∧
      Imaging m₀ d a size n s.2) (ImageFailed m₀ size) (fun s => size - s.1) (by simp)
    ⟨0, by simp, by omega, hi⟩ (by
      rintro ⟨c, mm⟩ ⟨n, hc, hn, hin⟩ hlt
      simp only [decide_eq_true_eq] at hc hin hlt
      have hcn : c = 4096 * n := by omega
      obtain ⟨hok, herr⟩ := hin.load hcr3 (by omega)
      rw [← hcn] at hok herr
      refine ⟨fun s hs => ?_, herr⟩
      obtain ⟨hs1, himg⟩ := hok s hs
      refine ⟨⟨n + 1, hs1, by omega, himg⟩, ?_⟩
      simp only
      omega) (by
      rintro ⟨c, mm⟩ ⟨n, hc, hn, -⟩ hzero
      simp only at hc hzero
      simp only [decide_eq_false_iff_not]
      omega)
  refine ⟨fun s hs => ?_, hloop.2⟩
  obtain ⟨⟨n, hc, hn, himg⟩, hdone⟩ := hloop.1 s hs
  simp only [decide_eq_false_iff_not] at hdone
  have hpages : imagePages size = n := by
    unfold imagePages
    omega
  rw [hpages]
  exact himg

/-! ## The stack page and the whole image -/

/-- The space with directory {lit}`d` has the module's pages, an empty stack page and no
other page. -/
structure ImageOf (m₀ : Memory) (a size : Nat) (phys : ByteMemory) (d : Nat) : Prop where
  flags : ∀ q, q < imagePages size → pte phys d (q / 1024) (q % 1024) % 4096 = 7
  bytes : Region m₀ a size → ∀ q, q < imagePages size → PageBytes m₀.phys a size phys d q
  stackFlags : pte phys d 767 1023 % 4096 = 7
  stackBytes : ∀ o, o < 4096 → phys (4096 * (pte phys d 767 1023 / 4096) + o) = 0
  others : ∀ i j, i < 768 → j < 1024 → imagePages size ≤ 1024 * i + j →
    ¬ (i = 767 ∧ j = 1023) → ¬ pte phys d i j % 2 = 1
  pages : imagePages size < 16384
  tables : UserTables phys d

/-- An image is kept with its entries and pages. -/
theorem ImageOf.kept {a size : Nat} {phys phys' : ByteMemory} (h : ImageOf m₀ a size phys d)
    (hk : ∀ i j, i < 768 → j < 1024 → EntryKept phys phys' d i j) :
    ImageOf m₀ a size phys' d := by
  have hpages := h.pages
  have hq : ∀ q, q < imagePages size → EntryKept phys phys' d (q / 1024) (q % 1024) :=
    fun q hlt => hk _ _ (by omega) (by omega)
  have hstack := hk 767 1023 (by omega) (by omega)
  refine ⟨fun q hlt => ?_, fun hr q hlt => ?_, ?_, fun o ho => ?_, fun i j hi hj hle hne => ?_,
    hpages, fun i hi hodd => ?_⟩
  · rw [(hq q hlt).pte]
    exact h.flags q hlt
  · have hflags := h.flags q hlt
    exact (h.bytes hr q hlt).kept (hq q hlt) (by omega)
  · rw [hstack.pte]
    exact h.stackFlags
  · have hflags := h.stackFlags
    rw [hstack.pte, ← h.stackBytes o ho]
    exact (hstack.bytes (by omega) _ (by omega)).symm
  · rw [(hk i j hi hj).pte]
    exact h.others i j hi hj hle hne
  · rw [(hk i 0 hi (by omega)).pde] at hodd ⊢
    exact h.tables i hi hodd

/-- {lit}`setup_user_stack` on a loaded module. -/
theorem Imaging.setupUserStack {a size : Nat} (hi : Imaging m₀ d a size (imagePages size) m) :
    (∃ m', m.setupUserStack (4096 * d) = (some 0xBFFFFFF8, m') ∧ Built m₀ m' d [] ∧
        ImageOf m₀ a size m'.phys d ∧ m'.pfa.freeCount + imageDemand size = m₀.pfa.freeCount ∧
        m'.pfa.exhausted = m₀.pfa.exhausted) ∨
      (∃ m', m.setupUserStack (4096 * d) = (none, m') ∧ Built m₀ m' d [] ∧
        m₀.pfa.freeCount < imageDemand size) := by
  have hb := hi.built
  have hlow := hi.low
  have hcount := hi.count
  unfold Memory.setupUserStack
  rcases hb.alloc with ⟨f, m₁, halloc, -, hfown, hfree, hphys₁, hcount₁, hb₁⟩ |
    ⟨hzero, m₁, halloc, -, hb₁⟩
  · obtain ⟨hf0, hf20⟩ := hb.bounds hfree
    have hne : ¬ 4096 * f = 0 := by omega
    have hpage₁ : m₁.slots d (.page 767 1023) = none := by
      rw [slots_page m₁ d (by norm_num) (by norm_num), hphys₁, entryFrame_eq_none]
      exact hi.ahead 767 1023 (by norm_num) (by norm_num) (by omega)
    have htables₁ : UserTables m₁.phys d := by
      rw [hphys₁]
      exact hi.tables
    simp only [halloc, if_neg hne]
    rcases hb₁.mapUserPage (show 767 < 768 by norm_num) (show 1023 < 1024 by norm_num)
      (show 0xBFFFF000 / 2 ^ 22 = 767 by norm_num)
      (show 0xBFFFF000 / 2 ^ 12 % 1024 = 1023 by norm_num) hpage₁ htables₁ with
      ⟨m₂, hmap, hm⟩ | ⟨hzero, m₂, hmap, hb₂⟩
    · have hb₂ := hm.built
      have hwrite : ∀ g, g ≠ f → ByteMemory.BlockEq m₂.phys (m₂.phys.fill (4096 * f) 4096 0) g :=
        fun g hg => (ByteMemory.blockEq_fill m₂.phys hg).symm
      obtain ⟨hb₃, -⟩ := hb₂.write_page hm.page hwrite
      have hentries := fun {i' j'} (hi' : i' < 768) (hj' : j' < 1024) =>
        hb₂.kept_write_page hm.page hwrite hi' hj'
      have hentry : pte (m₂.phys.fill (4096 * f) 4096 0) d 767 1023 = 4096 * f + 7 := by
        rw [(hentries (by norm_num) (by norm_num)).2.1, hm.entry]
      have hdiv : (4096 * f + 7) / 4096 = f := by omega
      have hothers : ∀ i' j', i' < 768 → j' < 1024 → ¬ (i' = 767 ∧ j' = 1023) →
          EntryKept m.phys (m₂.phys.fill (4096 * f) 4096 0) d i' j' ∨
            (pte m.phys d i' j' = 0 ∧
              pte (m₂.phys.fill (4096 * f) 4096 0) d i' j' = 0) := by
        intro i' j' hi' hj' hne'
        have hkeep := (hentries hi' hj').2.2 hne'
        rw [← hphys₁]
        rcases hm.others i' j' hi' hj' hne' with hk | ⟨hz, hz'⟩
        · exact .inl (hk.trans hkeep)
        · exact .inr ⟨hz, hkeep.pte.trans hz'⟩
      have hkept : ∀ q, q < imagePages size →
          EntryKept m.phys (m₂.phys.fill (4096 * f) 4096 0) d (q / 1024) (q % 1024) := by
        intro q hq
        rcases hothers (q / 1024) (q % 1024) (by omega) (Nat.mod_lt _ (by norm_num))
          (by omega) with hk | ⟨hz, -⟩
        · exact hk
        · have hflags := hi.flags q hq
          rw [hz] at hflags
          norm_num at hflags
      have hspent : m₂.pfa.freeCount + imageDemand size = m₀.pfa.freeCount := by
        have hmapped := hm.count
        have hnew : ¬ m₁.phys.word d 767 % 2 = 1 := by
          rw [hphys₁, hi.present 767 (by norm_num)]
          omega
        rw [if_neg hnew] at hmapped
        unfold imageDemand
        omega
      refine .inl ⟨{ m₂ with phys := m₂.phys.fill (4096 * f) 4096 0 }, ?_, hb₃,
        ⟨fun q hq => ?_, fun hr q hq => ?_, ?_, fun o ho => ?_, fun i j hi' hj' hle hne' => ?_, hlow,
        fun i' hi' hodd => ?_⟩, hspent,
        hm.exhausted.trans ((pfaAlloc_exhausted halloc hne).trans hi.exhausted)⟩
      · simp only [hmap, Bool.true_eq_false, if_false, clearStack_eq hb₂.ok.closed hf20]
      · rw [(hkept q hq).pte]
        exact hi.flags q hq
      · have hflags := hi.flags q hq
        exact (hi.bytes hr q hq).kept (hkept q hq) (by omega)
      · rw [hentry]
        omega
      · rw [hentry, hdiv]
        simp only [ByteMemory.fill]
        rw [if_pos (by omega)]
      · rcases hothers i j hi' hj' hne' with hk | ⟨-, hz⟩
        · rw [hk.pte]
          exact hi.ahead i j hi' hj' hle
        · simp [hz]
      · have hpde := (hentries hi' (show 0 < 1024 by norm_num)).1
        rw [hpde] at hodd ⊢
        exact hm.tables i' hi' hodd
    · refine .inr ⟨m₂.pfaFree (4096 * f), ?_, hb₂.free List.not_mem_nil, ?_⟩
      · simp only [hmap, if_true]
      · unfold imageDemand
        omega
  · refine .inr ⟨m₁, ?_, hb₁, ?_⟩
    · simp only [halloc, if_true]
    · unfold imageDemand
      omega

/-- {lit}`build_new_image` builds the image of the module, or gives every frame back. -/
theorem buildNewImage_spec {a b : Nat} (hok : MemOk m₀) (hpde : m₀.pageDirectory 768 < 2 ^ 32)
    (hcr3 : ¬ m₀.pfa.Free (m₀.cr3 / 4096)) :
    (∃ d m, m₀.buildNewImage a b = (some ⟨4096 * d, 0, 0xBFFFFFF8⟩, m) ∧ Built m₀ m d [] ∧
        ImageOf m₀ a (b - a) m.phys d ∧ a < b ∧
        m.pfa.freeCount + imageDemand (b - a) = m₀.pfa.freeCount ∧
        m.pfa.exhausted = m₀.pfa.exhausted) ∨
      ∃ m, m₀.buildNewImage a b = (none, m) ∧ Restored m₀ m ∧
        (b ≤ a ∨ m₀.pfa.freeCount < imageDemand (b - a)) := by
  unfold buildNewImage
  by_cases hab : b ≤ a
  · exact .inr ⟨m₀, by rw [if_pos hab], ⟨MemSame.refl _, fun _ => rfl,
      fun _ _ => ByteMemory.BlockEq.refl _ _⟩, .inl hab⟩
  rw [if_neg hab]
  rcases createUserPdt_cases hok hpde with ⟨d, m₁, hrun, hb, hslots, hcount, hexh, -⟩ | ⟨hzero, hrun⟩
  · have hd0 := hb.dir_owned.1
    have hne : ¬ 4096 * d = 0 := by omega
    have hcr3' : 4096 * d ≠ m₀.cr3 := by
      intro h
      rw [← h, Nat.mul_div_cancel_left _ (by norm_num)] at hcr3
      exact hcr3 hb.dir_free
    have htables : ∀ i, i < 768 → ¬ m₁.phys.word d i % 2 = 1 := by
      intro i hi
      rw [← entryFrame_eq_none, ← slots_table m₁ d hi, hslots]
      simp
    have hstart : Imaging m₀ d a (b - a) 0 m₁ := by
      refine ⟨hb, fun q hq => by omega, fun _ q hq => by omega, fun i j hi hj _ => ?_,
        fun i hi hodd => absurd hodd (htables i hi), fun i hi => ?_, hcount, hexh⟩
      · rw [pte, if_neg (htables i hi)]
        norm_num
      · simp [htables i hi]
    obtain ⟨hok', herr⟩ := hstart.loop hcr3'
    simp only [hrun, if_neg hne]
    cases hres : tryWhile (b - a) (fun s => decide (s.1 < b - a)) (loadPage (4096 * d) a (b - a))
        (0, m₁) with
    | ok s =>
        rcases (hok' s hres).setupUserStack with ⟨m, hstack, hb', himage, hspent, hexh'⟩ |
          ⟨m, hstack, hb', hfew⟩
        · exact .inl ⟨d, m, by simp only [hstack], hb', himage, by omega, hspent, hexh'⟩
        · exact .inr ⟨_, by simp only [hstack], hb'.destroy hcr3', .inr hfew⟩
    | error m =>
        obtain ⟨hrest, hfew⟩ := herr m hres
        exact .inr ⟨m, rfl, hrest, .inr hfew⟩
  · refine .inr ⟨_, by simp only [hrun, if_true], restored_of_exhausted m₀, .inr ?_⟩
    unfold imageDemand
    omega

end Image

end Memory

end SoKernel
