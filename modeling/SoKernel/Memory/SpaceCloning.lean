import SoKernel.Memory.SpaceBuilding

/-!
# Cloning address spaces

{lit}`clone_user_space` copies the tables and the pages of a space onto fresh frames.
The parent's frames are in use, so the construction of the child leaves them alone.

Main results:

- Theorem {lit}`copyFramePage_eq`: the bounce buffer copies a page exactly.
- Theorem {lit}`cloneUserSpace_spec`: the child has the pages of the parent with the
  same flags and bytes, or every frame is given back; the latter only when the frames
  do not suffice.
-/

namespace SoKernel

namespace Memory

/-- The chunks of {lit}`copy_frame_page` add up to the whole page. -/
theorem copyFramePage_eq {m : Memory} (h : m.WindowClosed) {s f : Nat} (hs : s < 2 ^ 20)
    (hf : f < 2 ^ 20) :
    m.copyFramePage (4096 * s) (4096 * f) =
      (0, { m with phys := m.phys.store (4096 * f) 4096 fun i => m.phys (4096 * s + i) }) := by
  unfold copyFramePage copyChunks
  generalize hrun : whileLoop 4096 _ _ (0, m) = t
  -- The invariant: the bytes below {lit}`copied` are stored.
  have hloop : (t.1 ≤ 4096 ∧
      t.2 = { m with phys := m.phys.store (4096 * f) t.1 fun i => m.phys (4096 * s + i) }) ∧
      decide (t.1 < 4096) = false := by
    subst hrun
    refine whileLoop_induct (fun t : Nat × Memory => t.1 ≤ 4096 ∧
      t.2 = { m with phys := m.phys.store (4096 * f) t.1 fun i => m.phys (4096 * s + i) })
      (fun t => 4096 - t.1) (by simp) ⟨by simp, by simp⟩ ?_ ?_
    · rintro ⟨c, mm⟩ ⟨hc, hmm⟩ hlt
      simp only [decide_eq_true_eq] at hc hmm hlt
      subst hmm
      have hclosed : ({ m with
          phys := m.phys.store (4096 * f) c fun i => m.phys (4096 * s + i) } :
            Memory).WindowClosed := h
      simp only [loadBytes_eq hclosed hs, storeBytes_eq hclosed hf]
      refine ⟨⟨by omega, ?_⟩, by omega⟩
      rw [ByteMemory.store_append]
      intro i hi
      rw [if_pos hi]
      simp only [ByteMemory.store]
      rw [if_neg (by omega), Nat.add_assoc]
    · rintro ⟨c, mm⟩ ⟨hc, -⟩ hzero
      simp only at hc hzero
      simp only [decide_eq_false_iff_not]
      omega
  obtain ⟨⟨hle, hmem⟩, hdone⟩ := hloop
  simp only [decide_eq_false_iff_not] at hdone
  have hend : t.1 = 4096 := by omega
  rw [hend] at hmem
  simp only [hmem]

/-! ## Copied pages -/

/-- The page behind entries {lit}`i` and {lit}`j` is mapped in the copy exactly when it is
mapped in the original, with the same flags and bytes. -/
structure PageCopied (a : ByteMemory) (d : Nat) (b : ByteMemory) (d' i j : Nat) : Prop where
  mapped : pte b d' i j % 2 = 1 ↔ pte a d i j % 2 = 1
  pdeFlags : pte a d i j % 2 = 1 → b.word d' i % 4096 = a.word d i % 4096
  pteFlags : pte a d i j % 2 = 1 → pte b d' i j % 4096 = pte a d i j % 4096
  bytes : pte a d i j % 2 = 1 → ∀ o, o < 4096 →
    b (4096 * (pte b d' i j / 4096) + o) = a (4096 * (pte a d i j / 4096) + o)

section Cloning

variable {m₀ m : Memory} {pd d : Nat} {X : List Nat}

theorem PageCopied.kept {a b b' : ByteMemory} {d d' i j : Nat} (h : PageCopied a d b d' i j)
    (hk : EntryKept b b' d' i j) : PageCopied a d b' d' i j := by
  refine ⟨hk.pte ▸ h.mapped, fun hodd => ?_, fun hodd => ?_, fun hodd o ho => ?_⟩
  · rw [hk.pde, h.pdeFlags hodd]
  · rw [hk.pte, h.pteFlags hodd]
  · rw [hk.pte, ← h.bytes hodd o ho]
    exact (hk.bytes (h.mapped.2 hodd) _ (by omega)).symm

/-- A space whose frames are not free: building another space leaves it alone. -/
structure Settled (m₀ : Memory) (pd : Nat) : Prop where
  bound : pd < 2 ^ 20
  frames : ∀ s f, m₀.slots pd s = some f → ¬ m₀.pfa.Free f

/-- The directory entries below {lit}`k` that have a table. -/
def tableCount (phys : ByteMemory) (pd k : Nat) : Nat :=
  Nat.count (fun i => phys.word pd i % 2 = 1) k

/-- The mapped pages among the first {lit}`n`. -/
def pageCount (phys : ByteMemory) (pd n : Nat) : Nat :=
  Nat.count (fun x => pte phys pd (x / 1024) (x % 1024) % 2 = 1) n

theorem tableCount_succ (phys : ByteMemory) (pd k : Nat) :
    tableCount phys pd (k + 1) =
      tableCount phys pd k + if phys.word pd k % 2 = 1 then 1 else 0 :=
  Nat.count_succ _ k

theorem pageCount_succ (phys : ByteMemory) (pd i : Nat) {j : Nat} (hj : j < 1024) :
    pageCount phys pd (1024 * i + (j + 1)) =
      pageCount phys pd (1024 * i + j) + if pte phys pd i j % 2 = 1 then 1 else 0 := by
  have hdiv : (1024 * i + j) / 1024 = i := by omega
  have hmod : (1024 * i + j) % 1024 = j := by omega
  have hcount := Nat.count_succ
    (fun x => pte phys pd (x / 1024) (x % 1024) % 2 = 1) (1024 * i + j)
  simp only [hdiv, hmod] at hcount
  exact hcount

/-- The state of {lit}`clone_user_space` when {lit}`k` directory entries and {lit}`n` pages
are dealt with. -/
structure Cloning (m₀ : Memory) (pd d k n : Nat) (m : Memory) : Prop where
  built : Built m₀ m d []
  tables : ∀ i, k ≤ i → m.slots d (.table i) = none
  copied : ∀ i j, i < 768 → j < 1024 → 1024 * i + j < n → PageCopied m₀.phys pd m.phys d i j
  ahead : ∀ i j, j < 1024 → n ≤ 1024 * i + j → m.slots d (.page i j) = none
  count : m.pfa.freeCount + 1 + tableCount m₀.phys pd k + pageCount m₀.phys pd n =
    m₀.pfa.freeCount
  exhausted : m.pfa.exhausted = m₀.pfa.exhausted

/-- The number of frames a clone of the space takes. -/
def cloneDemand (phys : ByteMemory) (pd : Nat) : Nat :=
  1 + tableCount phys pd 768 + pageCount phys pd (1024 * 768)

/-- What a failed clone promises. -/
def CloneFailed (m₀ : Memory) (pd : Nat) (m : Memory) : Prop :=
  Restored m₀ m ∧ m₀.pfa.freeCount < cloneDemand m₀.phys pd

/-- A page that the parent does not map is passed over. -/
theorem Cloning.skipPage {i j : Nat} (hc : Cloning m₀ pd d (i + 1) (1024 * i + j) m)
    (hi : i < 768) (hj : j < 1024) (hodd : ¬ pte m₀.phys pd i j % 2 = 1) :
    Cloning m₀ pd d (i + 1) (1024 * i + (j + 1)) m := by
  refine ⟨hc.built, hc.tables, fun i' j' hi' hj' hlt => ?_, fun i' j' hj' hle => ?_, ?_,
    hc.exhausted⟩
  · by_cases hij : i' = i ∧ j' = j
    · obtain ⟨rfl, rfl⟩ := hij
      have hnone := hc.ahead i' j' hj' le_rfl
      rw [slots_page m d hi' hj', entryFrame_eq_none] at hnone
      exact ⟨by simp [hnone, hodd], fun h => absurd h hodd, fun h => absurd h hodd,
        fun h => absurd h hodd⟩
    · exact hc.copied i' j' hi' hj' (by omega)
  · exact hc.ahead i' j' hj' (by omega)
  · have hcount := hc.count
    rw [pageCount_succ _ _ _ hj, if_neg hodd]
    omega

/-- A directory entry without a table is passed over. -/
theorem Cloning.skipTable {i : Nat} (hc : Cloning m₀ pd d i (1024 * i) m) (hi : i < 768)
    (hodd : ¬ m₀.phys.word pd i % 2 = 1) : Cloning m₀ pd d (i + 1) (1024 * (i + 1)) m := by
  have hpte : ∀ j, ¬ pte m₀.phys pd i j % 2 = 1 := by
    intro j
    simp [pte, hodd]
  -- The row of pages behind the entry is passed over page by page.
  have hrow : ∀ j, j ≤ 1024 → Cloning m₀ pd d (i + 1) (1024 * i + j) m := by
    intro j
    induction j with
    | zero =>
        refine fun _ => ⟨hc.built, fun i' hi' => hc.tables i' (by omega), hc.copied, hc.ahead, ?_,
          hc.exhausted⟩
        have hcount := hc.count
        rw [tableCount_succ, if_neg hodd]
        exact hcount
    | succ j ih => exact fun hj => (ih (by omega)).skipPage hi (by omega) (hpte j)
  exact hrow 1024 le_rfl

/-- Frames needed up to some point of the loops do not exceed the demand. -/
theorem lt_cloneDemand {phys : ByteMemory} {k n : Nat} (hk : k ≤ 768) (hn : n ≤ 1024 * 768)
    {c : Nat} (hc : c < 1 + tableCount phys pd k + pageCount phys pd n) :
    c < cloneDemand phys pd := by
  have htables : tableCount phys pd k ≤ tableCount phys pd 768 := Nat.count_monotone _ hk
  have hpages : pageCount phys pd n ≤ pageCount phys pd (1024 * 768) := Nat.count_monotone _ hn
  unfold cloneDemand
  omega

/-- The entries of the parent are those it had before. -/
theorem Settled.words (hp : Settled m₀ pd) (hb : Built m₀ m d X) {i : Nat} (hi : i < 768) :
    m.phys.word pd i = m₀.phys.word pd i ∧
      (m₀.phys.word pd i % 2 = 1 → ∀ j, j < 1024 →
        m.phys.word (m₀.phys.word pd i / 4096) j = pte m₀.phys pd i j) := by
  refine ⟨((hb.phys pd (hp.frames .dir pd rfl)).word (by omega)).symm, fun hodd j hj => ?_⟩
  have htable := slots_table m₀ pd hi
  rw [entryFrame_of_odd hodd] at htable
  rw [pte, if_pos hodd]
  exact ((hb.phys _ (hp.frames _ _ htable)).word hj).symm

/-- One pass of the inner loop. -/
theorem Cloning.page {i j t : Nat} (hp : Settled m₀ pd)
    (hc : Cloning m₀ pd d (i + 1) (1024 * i + j) m) (hi : i < 768) (hj : j < 1024)
    (hcr3 : 4096 * d ≠ m₀.cr3) (hodd : m₀.phys.word pd i % 2 = 1)
    (ht : m.slots d (.table i) = some t)
    (hflags : m.phys.word d i % 4096 = m₀.phys.word pd i % 4096) :
    (∀ m', clonePage (4096 * d) (4096 * t) (4096 * (m₀.phys.word pd i / 4096)) j m = .ok m' →
      Cloning m₀ pd d (i + 1) (1024 * i + (j + 1)) m' ∧ m'.slots d (.table i) = some t ∧
        m'.phys.word d i % 4096 = m₀.phys.word pd i % 4096) ∧
    (∀ e, clonePage (4096 * d) (4096 * t) (4096 * (m₀.phys.word pd i / 4096)) j m = .error e →
      CloneFailed m₀ pd e) := by
  have hb := hc.built
  have hread := (hp.words hb hi).2 hodd j hj
  unfold clonePage
  rw [peekWord_eq hb.ok.closed (word_frame_lt _ _ _) j, hread]
  simp only [present_eq, decide_eq_false_iff_not]
  by_cases hpodd : pte m₀.phys pd i j % 2 = 1
  · rw [if_neg (by simpa using hpodd)]
    have hsrc : m₀.slots pd (.page i j) = some (pte m₀.phys pd i j / 4096) := by
      rw [slots_page m₀ pd hi hj, entryFrame_of_odd hpodd]
    have hsrc20 : pte m₀.phys pd i j / 4096 < 2 ^ 20 := by
      have := pte_lt m₀.phys pd i j
      omega
    rcases hb.alloc with ⟨f, m₁, halloc, -, hfown, hfree, hphys₁, hcount, hb₁⟩ |
      ⟨hzero, m₁, halloc, -, hb₁⟩
    · obtain ⟨hf0, hf20⟩ := hb.bounds hfree
      have hslots₁ : m₁.slots d = m.slots d := by
        rw [slots, hphys₁]
        rfl
      have hne : ¬ 4096 * f = 0 := by omega
      simp only [halloc, if_neg hne]
      rw [frameBits_eq (pte_lt _ _ _ _), copyFramePage_eq hb₁.ok.closed hsrc20 hf20, flagBits_eq]
      simp only [lt_irrefl, if_false]
      -- The copy is made while the child does not have the frame yet.
      generalize hstore : m₁.phys.store (4096 * f) 4096
        (fun o => m₁.phys (4096 * (pte m₀.phys pd i j / 4096) + o)) = phys₂
      have hwrite : ∀ g, g ≠ f → ByteMemory.BlockEq m₁.phys phys₂ g := by
        intro g hg
        rw [← hstore]
        exact (ByteMemory.blockEq_store _ le_rfl hg).symm
      obtain ⟨hb₂, hslots₂⟩ := hb₁.write_loose List.mem_cons_self hwrite
      have hcopy : ∀ o, o < 4096 →
          phys₂ (4096 * f + o) = m₀.phys (4096 * (pte m₀.phys pd i j / 4096) + o) := by
        intro o ho
        rw [← hstore]
        simp only [ByteMemory.store]
        rw [if_pos (by omega), Nat.add_sub_cancel_left, hphys₁]
        exact (hb.phys _ (hp.frames _ _ hsrc) _ (by omega)).symm
      generalize hm₂ : ({ m₁ with phys := phys₂ } : Memory) = m₂ at hb₂ hslots₂ ⊢
      have hphys₂ : m₂.phys = phys₂ := by rw [← hm₂]
      have hpfa₂ : m₂.pfa = m₁.pfa := by rw [← hm₂]
      have hft : f ≠ t := fun h => hfown (h ▸ hb.owns_slot ht)
      have ht₂ : m₂.slots d (.table i) = some t := by rw [hslots₂, hslots₁, ht]
      have hfree₂ : m₂.slots d (.page i j) = none := by
        rw [hslots₂, hslots₁]
        exact hc.ahead i j hj le_rfl
      have hfl : pte m₀.phys pd i j % 4096 < 4096 := Nat.mod_lt _ (by norm_num)
      have hflodd : pte m₀.phys pd i j % 4096 % 2 = 1 := by omega
      obtain ⟨hb₃, hslots₃, hphys₃, hpfa₃⟩ :=
        hb₂.enterPage List.not_mem_nil ht₂ hj hfree₂ hfl hflodd
      obtain ⟨-, -, hvdiv, hv⟩ := entry_parts hf20 hfl hflodd
      have hkeep : ∀ i' j', i' < 768 → j' < 1024 → EntryKept m.phys m₂.phys d i' j' := by
        intro i' j' hi' hj'
        rw [hphys₂, ← hphys₁]
        exact hb₁.kept_write (by rw [hslots₁]; exact hfown) hwrite hi' hj'
      obtain ⟨hpte, hpde⟩ := hb₂.pte_enterPage hi ht₂ hj hv
      rw [← hphys₃] at hpte hpde
      refine ⟨?_, fun e he => by cases he⟩
      intro m' hm'
      rw [Except.ok.injEq] at hm'
      rw [hm'] at hb₃ hslots₃ hphys₃ hpfa₃ hpte hpde
      refine ⟨⟨hb₃, fun i' hi' => ?_, fun i' j' hi' hj' hlt => ?_, fun i' j' hj' hle => ?_, ?_, ?_⟩,
        ?_, ?_⟩
      · rw [hslots₃, Function.update_of_ne (by simp), hslots₂, hslots₁]
        exact hc.tables i' hi'
      · by_cases hij : i' = i ∧ j' = j
        · obtain ⟨rfl, rfl⟩ := hij
          refine ⟨?_, fun _ => ?_, fun _ => ?_, fun _ o ho => ?_⟩
          · rw [hpte]
            simp only [hpodd, iff_true]
            omega
          · rw [hpde, (hkeep i' j' hi hj).pde, hflags]
          · rw [hpte]
            omega
          · rw [hpte, hvdiv, ← hcopy o ho, ← hphys₂, hphys₃]
            exact ByteMemory.blockEq_setWord m₂.phys hj' hft _ (by omega)
        · refine (hc.copied i' j' hi' hj' (by omega)).kept ((hkeep i' j' hi' hj').trans ?_)
          rw [hphys₃]
          exact hb₂.kept_enterPage ht₂ hj hv hi' hj' hij
      · have hpage : Slot.page i' j' ≠ Slot.page i j := by
          simp only [ne_eq, Slot.page.injEq, not_and]
          intro hii hjj
          omega
        rw [hslots₃, Function.update_of_ne hpage, hslots₂, hslots₁]
        exact hc.ahead i' j' hj' (by omega)
      · have hbefore := hc.count
        rw [pageCount_succ _ _ _ hj, if_pos hpodd, hpfa₃, hpfa₂]
        omega
      · rw [hpfa₃, hpfa₂, pfaAlloc_exhausted halloc hne]
        exact hc.exhausted
      · rw [hslots₃, Function.update_of_ne (by simp)]
        exact ht₂
      · rw [hpde, (hkeep i j hi hj).pde, hflags]
    · simp only [halloc, if_true]
      refine ⟨fun m' hm' => (by cases hm'), ?_⟩
      intro e he
      rw [Except.error.injEq] at he
      rw [← he]
      refine ⟨hb₁.destroy hcr3, ?_⟩
      have hcount := hc.count
      have hsucc := pageCount_succ m₀.phys pd i hj
      rw [if_pos hpodd] at hsucc
      exact lt_cloneDemand (k := i + 1) (n := 1024 * i + (j + 1)) (by omega) (by omega) (by omega)
  · rw [if_pos (by simpa using hpodd)]
    refine ⟨?_, fun e he => by cases he⟩
    intro m' hm'
    rw [Except.ok.injEq] at hm'
    rw [← hm']
    exact ⟨hc.skipPage hi hj hpodd, ht, hflags⟩

/-- The copy of one table. -/
theorem Cloning.table {i : Nat} (hp : Settled m₀ pd)
    (hc : Cloning m₀ pd d i (1024 * i) m) (hi : i < 768) (hcr3 : 4096 * d ≠ m₀.cr3) :
    (∀ m', cloneEntry (4096 * pd) (4096 * d) i m = .ok m' →
      Cloning m₀ pd d (i + 1) (1024 * (i + 1)) m') ∧
    (∀ e, cloneEntry (4096 * pd) (4096 * d) i m = .error e → CloneFailed m₀ pd e) := by
  have hb := hc.built
  unfold cloneEntry
  rw [peekWord_eq hb.ok.closed hp.bound i, (hp.words hb hi).1]
  simp only [present_eq, decide_eq_false_iff_not]
  by_cases hodd : m₀.phys.word pd i % 2 = 1
  · rw [if_neg (by simpa using hodd)]
    have hcount := hc.count
    have hsucc := tableCount_succ m₀.phys pd i
    rw [if_pos hodd] at hsucc
    rcases hb.allocZeroed with
      ⟨t, m₂, halloc, -, htown, htfree, hcount₂, hb₂, hslots₂, hcleared, hwrite⟩ |
      ⟨hzero, m₂, halloc, -, hb₂⟩
    · obtain ⟨ht0, ht20⟩ := hb.bounds htfree
      have hne : ¬ 4096 * t = 0 := by omega
      simp only [halloc, if_neg hne]
      have hfree₂ : m₂.slots d (.table i) = none := by
        rw [hslots₂]
        exact hc.tables i le_rfl
      have hfl : m₀.phys.word pd i % 4096 < 4096 := Nat.mod_lt _ (by norm_num)
      have hflodd : m₀.phys.word pd i % 4096 % 2 = 1 := by omega
      rw [flagBits_eq, frameBits_word]
      obtain ⟨hb₃, hslots₃, hphys₃, hpfa₃⟩ :=
        hb₂.enterTable List.not_mem_nil hcleared hi hfree₂ hfl hflodd
      obtain ⟨-, -, -, hv⟩ := entry_parts ht20 hfl hflodd
      generalize m₂.pokeWord (4096 * d) i (4096 * t ||| m₀.phys.word pd i % 4096) = m₃
        at hb₃ hslots₃ hphys₃ hpfa₃ ⊢
      have hkeep : ∀ i' j', i' < 768 → j' < 1024 → i' ≠ i → EntryKept m.phys m₃.phys d i' j' := by
        intro i' j' hi' hj' hii
        rw [hphys₃]
        exact (hb.kept_write htown hwrite hi' hj').trans (hb₂.kept_enterTable hi hv hi' hj' hii)
      have hstart : Cloning m₀ pd d (i + 1) (1024 * i + 0) m₃ := by
        refine ⟨hb₃, fun i' hi' => ?_, fun i' j' hi' hj' hlt => ?_, fun i' j' hj' hle => ?_, ?_, ?_⟩
        · have htable : Slot.table i' ≠ Slot.table i := by
            simp only [ne_eq, Slot.table.injEq]
            omega
          rw [hslots₃, Function.update_of_ne htable, hslots₂]
          exact hc.tables i' (by omega)
        · exact (hc.copied i' j' hi' hj' (by omega)).kept (hkeep i' j' hi' hj' (by omega))
        · rw [hslots₃, Function.update_of_ne (by simp), hslots₂]
          exact hc.ahead i' j' hj' (by omega)
        · simp only [hpfa₃, Nat.add_zero]
          omega
        · rw [hpfa₃, hb.allocZeroed_exhausted halloc hne]
          exact hc.exhausted
      have htable : m₃.slots d (.table i) = some t := by
        rw [hslots₃, Function.update_self]
      have hflags : m₃.phys.word d i % 4096 = m₀.phys.word pd i % 4096 := by
        rw [hphys₃, ByteMemory.word_setWord _ hv (by omega) (by omega), if_pos ⟨rfl, rfl⟩]
        omega
      obtain ⟨hok, herr⟩ := @tryRange_induct _ _ 1024
        (clonePage (4096 * d) (4096 * t) (4096 * (m₀.phys.word pd i / 4096))) m₃
        (fun j m' => Cloning m₀ pd d (i + 1) (1024 * i + j) m' ∧ m'.slots d (.table i) = some t ∧
          m'.phys.word d i % 4096 = m₀.phys.word pd i % 4096)
        (CloneFailed m₀ pd) ⟨hstart, htable, hflags⟩
        (fun j hj m' ⟨hc', ht', hfl'⟩ => hc'.page hp hi hj hcr3 hodd ht' hfl')
      exact ⟨fun m' hm' => (hok m' hm').1, herr⟩
    · simp only [halloc, if_true]
      refine ⟨fun m' hm' => (by cases hm'), ?_⟩
      intro e he
      rw [Except.error.injEq] at he
      rw [← he]
      exact ⟨hb₂.destroy hcr3,
        lt_cloneDemand (k := i + 1) (n := 1024 * i) (by omega) (by omega) (by omega)⟩
  · rw [if_pos (by simpa using hodd)]
    refine ⟨?_, fun e he => by cases he⟩
    intro m' hm'
    rw [Except.ok.injEq] at hm'
    rw [← hm']
    exact hc.skipTable hi hodd

/-- {lit}`clone_user_space` copies the space, or gives every frame back. -/
theorem cloneUserSpace_spec (hok : MemOk m₀) (hpde : m₀.pageDirectory 768 < 2 ^ 32)
    (hp : Settled m₀ pd) (hcr3 : ¬ m₀.pfa.Free (m₀.cr3 / 4096)) :
    (∃ d m, m₀.cloneUserSpace (4096 * pd) = (4096 * d, m) ∧ d ≠ 0 ∧ Built m₀ m d [] ∧
        (∀ i j, i < 768 → j < 1024 → PageCopied m₀.phys pd m.phys d i j) ∧
        m.pfa.freeCount + cloneDemand m₀.phys pd = m₀.pfa.freeCount ∧
        m.pfa.exhausted = m₀.pfa.exhausted) ∨
      ∃ m, m₀.cloneUserSpace (4096 * pd) = (0, m) ∧ CloneFailed m₀ pd m := by
  unfold cloneUserSpace
  rcases createUserPdt_cases hok hpde with ⟨d, m₁, hrun, hb, hslots, hcount, hexh, -⟩ | ⟨hzero, hrun⟩
  · have hd0 := hb.dir_owned.1
    rw [hrun]
    simp only [if_neg (show ¬ 4096 * d = 0 by omega)]
    have hcr3' : 4096 * d ≠ m₀.cr3 := by
      intro h
      rw [← h] at hcr3
      exact hcr3 (by rw [Nat.mul_div_cancel_left _ (by norm_num)]; exact hb.dir_free)
    have hstart : Cloning m₀ pd d 0 (1024 * 0) m₁ := by
      refine ⟨hb, fun i _ => by simp [hslots], fun i j _ _ hlt => by omega,
        fun i j _ _ => by simp [hslots], ?_, hexh⟩
      simp only [tableCount, pageCount, Nat.count_zero, Nat.mul_zero, Nat.add_zero]
      exact hcount
    obtain ⟨hok', herr⟩ := @tryRange_induct _ _ 768 (cloneEntry (4096 * pd) (4096 * d)) m₁
      (fun i m' => Cloning m₀ pd d i (1024 * i) m') (CloneFailed m₀ pd) hstart
      (fun i hi m' hc' => hc'.table hp hi hcr3')
    cases hres : tryRange 768 (cloneEntry (4096 * pd) (4096 * d)) m₁ with
    | ok m =>
        have hc := hok' m hres
        have hdemand := hc.count
        refine .inl ⟨d, m, rfl, hd0, hc.built,
          fun i j hi hj => hc.copied i j hi hj (by omega), ?_, hc.exhausted⟩
        unfold cloneDemand
        omega
    | error m => exact .inr ⟨m, rfl, herr m hres⟩
  · refine .inr ⟨_, by rw [hrun]; rfl, restored_of_exhausted m₀, ?_⟩
    rw [hzero, cloneDemand]
    omega

end Cloning

/-! ## The demand of a clone -/

/-- The slots of the user half of a space that have a frame. -/
def filledSlots (phys : ByteMemory) (pd : Nat) : Finset Slot :=
  insert Slot.dir
    (((Finset.range 768).filter fun i => phys.word pd i % 2 = 1).image Slot.table ∪
      ((Finset.range (1024 * 768)).filter fun x =>
        pte phys pd (x / 1024) (x % 1024) % 2 = 1).image fun x => Slot.page (x / 1024) (x % 1024))

/-- A clone takes a frame for each of them. -/
theorem card_filledSlots (phys : ByteMemory) (pd : Nat) :
    (filledSlots phys pd).card = cloneDemand phys pd := by
  have hpage : Function.Injective fun x => Slot.page (x / 1024) (x % 1024) := by
    intro x y hxy
    simp only [Slot.page.injEq] at hxy
    omega
  have hdisj : Disjoint
      (((Finset.range 768).filter fun i => phys.word pd i % 2 = 1).image Slot.table)
      (((Finset.range (1024 * 768)).filter fun x =>
        pte phys pd (x / 1024) (x % 1024) % 2 = 1).image
          fun x => Slot.page (x / 1024) (x % 1024)) := by
    rw [Finset.disjoint_left]
    intro s ht hp
    obtain ⟨i, -, rfl⟩ := Finset.mem_image.1 ht
    obtain ⟨x, -, hx⟩ := Finset.mem_image.1 hp
    cases hx
  rw [filledSlots, Finset.card_insert_of_notMem (by simp), Finset.card_union_of_disjoint hdisj,
    Finset.card_image_of_injective _ (fun i j hij => Slot.table.inj hij),
    Finset.card_image_of_injective _ hpage, cloneDemand, tableCount, pageCount,
    Nat.count_eq_card_filter_range, Nat.count_eq_card_filter_range]
  omega

/-- A space whose slots are filled takes as many frames as its clone does, all in use. -/
theorem Space.cloneDemand_le {m : Memory} {d : Nat} (h : Space m d)
    (hfilled : ∀ s, m.slots d s ≠ some 0) :
    cloneDemand m.phys d + m.pfa.freeCount ≤ m.pfa.totalFrames - m.pfa.startFrame := by
  have hsome : ∀ s ∈ filledSlots m.phys d, ∃ f, f ≠ 0 ∧ m.slots d s = some f := by
    intro s hs
    suffices hslot : ∃ f, m.slots d s = some f by
      obtain ⟨f, hf⟩ := hslot
      exact ⟨f, fun hz => hfilled s (hz ▸ hf), hf⟩
    simp only [filledSlots, Finset.mem_insert, Finset.mem_union, Finset.mem_image,
      Finset.mem_filter, Finset.mem_range] at hs
    rcases hs with rfl | ⟨i, ⟨hi, hodd⟩, rfl⟩ | ⟨x, ⟨hx, hodd⟩, rfl⟩
    · exact ⟨d, rfl⟩
    · exact ⟨_, (slots_table m d hi).trans (entryFrame_of_odd hodd)⟩
    · exact ⟨_, (slots_page m d (by omega) (by omega)).trans (entryFrame_of_odd hodd)⟩
  have hused : (filledSlots m.phys d).card ≤
      ((Finset.Ico m.pfa.startFrame m.pfa.totalFrames).filter
        fun f => ¬ m.pfa.used f = false).card := by
    refine Finset.card_le_card_of_injOn (fun s => (m.slots d s).getD 0) ?_ ?_
    · intro s hs
      obtain ⟨f, hf0, hf⟩ := hsome s hs
      obtain ⟨husedf, hman⟩ := h.used f ⟨hf0, s, hf⟩
      simp only [hf, Option.getD_some, Finset.coe_filter, Finset.mem_Ico, Set.mem_ofPred_eq]
      exact ⟨⟨hman.1, hman.2⟩, by simp [husedf]⟩
    · intro s hs s' hs' heq
      obtain ⟨f, hf0, hf⟩ := hsome s hs
      obtain ⟨f', -, hf'⟩ := hsome s' hs'
      simp only [hf, hf', Option.getD_some] at heq
      exact h.separate s s' f hf0 hf (heq ▸ hf')
  have hsplit := Finset.card_filter_add_card_filter_not
    (s := Finset.Ico m.pfa.startFrame m.pfa.totalFrames) fun f => m.pfa.used f = false
  rw [Nat.card_Ico] at hsplit
  rw [card_filledSlots] at hused
  unfold Pfa.freeCount
  omega

end Memory

end SoKernel
