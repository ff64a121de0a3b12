import SoKernel.Memory.StoreInvariant
import SoKernel.Process.Creation

/-!
# Address spaces made at boot

{lit}`create_pcb_grub_modules` takes five frames without looking at what
{lit}`pfa_alloc` returned.  When the frames run out it goes on with frame 0.  This module
says what memory looks like afterwards in all cases: frame 0 is then a table whose only
entry maps frame 0 again.

Main results:

- Theorem {lit}`Drawn.zero_mem_iff`: some draw fails when there are fewer frames than draws.
- Theorem {lit}`loadModule_cases`: what a call leaves in physical memory.
- Theorem {lit}`Spaces.load`: the spaces of all processes are as they should be
  afterwards, and no slot has frame 0 when no allocation failed.
-/

namespace SoKernel

/-! ## Frames drawn one after another -/

namespace Pfa

/-- The frames {lit}`xs` were drawn one after another; 0 stands for a call that failed. -/
structure Drawn (p : Pfa) (xs : List Nat) (p' : Pfa) : Prop where
  startFrame : p'.startFrame = p.startFrame
  totalFrames : p'.totalFrames = p.totalFrames
  fresh : ∀ x ∈ xs, x ≠ 0 → p.Free x
  distinct : xs.Pairwise fun x y => y ≠ 0 → x ≠ 0 ∧ x ≠ y
  used : ∀ g, p'.used g = true ↔ p.used g = true ∨ (g ∈ xs ∧ g ≠ 0)
  failed : p'.exhausted = true ↔ p.exhausted = true ∨ 0 ∈ xs
  count : p'.freeCount + (xs.filter (· ≠ 0)).length = p.freeCount
  dry : 0 ∈ xs → p'.freeCount = 0
  frames : xs = (List.range xs.length).map fun i => p.freeFrames.getD i 0
  rest : p'.freeFrames = p.freeFrames.drop xs.length

theorem Drawn.nil (p : Pfa) : Drawn p [] p where
  startFrame := rfl
  totalFrames := rfl
  fresh := by simp
  distinct := List.Pairwise.nil
  used := by simp
  failed := by simp
  count := by simp
  dry := by simp
  frames := rfl
  rest := rfl

/-- One more call of {lit}`pfa_alloc`. -/
theorem Drawn.draw {p p' : Pfa} {xs : List Nat} (h : Drawn p xs p') (hwin : PfaWindow p) :
    ∃ f p'', p'.pfaAlloc = (4096 * f, p'') ∧ Drawn p (xs ++ [f]) p'' := by
  obtain ⟨hhead, htail⟩ := p'.pfaAlloc_freeFrames
  rw [h.rest] at hhead htail
  have hframes : ∀ f, 4096 * f = p'.pfaAlloc.1 → xs ++ [f] =
      (List.range (xs ++ [f]).length).map fun i => p.freeFrames.getD i 0 := by
    intro f hf
    have hdrawn : f = p.freeFrames.getD xs.length 0 := by
      rw [hhead] at hf
      rw [List.headD_eq_head?_getD, List.head?_drop, ← List.getD_eq_getElem?_getD] at hf
      omega
    rw [List.length_append, List.length_singleton, List.range_succ, List.map_append, ← h.frames,
      hdrawn]
    rfl
  have hrest : ∀ f : Nat, p'.pfaAlloc.2.freeFrames = p.freeFrames.drop (xs ++ [f]).length := by
    intro f
    rw [htail, List.tail_drop, List.length_append, List.length_singleton]
  rcases p'.freeCount_pfaAlloc with ⟨f, hf, halloc, hcount⟩ | ⟨hzero, halloc⟩
  · have hf0 : f ≠ 0 := by
      have := hf.1
      have := h.startFrame
      have := hwin.1
      omega
    have hcount' := h.count
    rw [halloc] at hcount
    simp only at hcount
    -- A frame that was drawn before is in use.
    have hnew : f ∉ xs := by
      intro hmem
      have hused := (h.used f).2 (.inr ⟨hmem, hf0⟩)
      rw [hf.2.2] at hused
      cases hused
    have hnozero : 0 ∉ xs := by
      intro hmem
      have := h.dry hmem
      omega
    refine ⟨f, _, halloc, ⟨h.startFrame, h.totalFrames, fun x hx hx0 => ?_, ?_, fun g => ?_,
      ?_, ?_, ?_, hframes f (by rw [halloc]), by rw [← hrest f, halloc]⟩⟩
    · rcases List.mem_append.1 hx with hx | hx
      · exact h.fresh x hx hx0
      · rw [List.mem_singleton] at hx
        subst hx
        refine ⟨h.startFrame ▸ hf.1, h.totalFrames ▸ hf.2.1, ?_⟩
        by_contra hused
        have := (h.used x).2 (.inl (by simpa using hused))
        rw [hf.2.2] at this
        cases this
    · rw [List.pairwise_append]
      refine ⟨h.distinct, List.pairwise_singleton _ _, fun x hx y hy _ => ?_⟩
      rw [List.mem_singleton] at hy
      subst hy
      exact ⟨fun hx0 => hnozero (hx0 ▸ hx), fun hxy => hnew (hxy ▸ hx)⟩
    · rw [used_mk_set p' f g p'.exhausted, Bool.or_eq_true, h.used g, decide_eq_true_eq,
        List.mem_append, List.mem_singleton]
      constructor
      · rintro ((hg | ⟨hg, hg0⟩) | rfl)
        · exact .inl hg
        · exact .inr ⟨.inl hg, hg0⟩
        · exact .inr ⟨.inr rfl, hf0⟩
      · rintro (hg | ⟨hg | hg, hg0⟩)
        · exact .inl (.inl hg)
        · exact .inl (.inr ⟨hg, hg0⟩)
        · exact .inr hg.symm
    · change p'.exhausted = true ↔ _
      rw [h.failed, List.mem_append, List.mem_singleton]
      constructor
      · rintro (hp | hx)
        · exact .inl hp
        · exact .inr (.inl hx)
      · rintro (hp | hx | hx)
        · exact .inl hp
        · exact .inr hx
        · exact absurd hx.symm hf0
    · rw [List.filter_append, List.length_append, List.filter_cons_of_pos (by simpa using hf0),
        List.filter_nil, List.length_singleton]
      omega
    · intro hmem
      rcases List.mem_append.1 hmem with hmem | hmem
      · exact absurd hmem hnozero
      · rw [List.mem_singleton] at hmem
        exact absurd hmem.symm hf0
  · refine ⟨0, _, halloc, ⟨h.startFrame, h.totalFrames, fun x hx hx0 => ?_, ?_, fun g => ?_,
      ?_, ?_, fun _ => hzero, hframes 0 (by rw [halloc]), by rw [← hrest 0, halloc]⟩⟩
    · rcases List.mem_append.1 hx with hx | hx
      · exact h.fresh x hx hx0
      · exact absurd (List.mem_singleton.1 hx) hx0
    · rw [List.pairwise_append]
      refine ⟨h.distinct, List.pairwise_singleton _ _, fun x hx y hy hy0 => ?_⟩
      exact absurd (List.mem_singleton.1 hy) hy0
    · change p'.used g = true ↔ _
      rw [h.used g, List.mem_append, List.mem_singleton]
      constructor
      · rintro (hg | ⟨hg, hg0⟩)
        · exact .inl hg
        · exact .inr ⟨.inl hg, hg0⟩
      · rintro (hg | ⟨hg | hg, hg0⟩)
        · exact .inl hg
        · exact .inr ⟨hg, hg0⟩
        · exact absurd hg hg0
    · simp
    · change p'.freeCount + _ = _
      rw [← h.count, List.filter_append]
      simp

/-- Draws that do not fail take a frame each. -/
theorem Drawn.count_of_nonzero {p p' : Pfa} {xs : List Nat} (h : Drawn p xs p') (hz : 0 ∉ xs) :
    p'.freeCount + xs.length = p.freeCount := by
  have hall : xs.filter (· ≠ 0) = xs :=
    List.filter_eq_self.2 fun y hy => by simpa using fun hy0 : y = 0 => hz (hy0 ▸ hy)
  have hcount := h.count
  rw [hall] at hcount
  exact hcount

/-- Some draw fails exactly when there are fewer frames than draws. -/
theorem Drawn.zero_mem_iff {p p' : Pfa} {xs : List Nat} (h : Drawn p xs p') :
    0 ∈ xs ↔ p.freeCount < xs.length := by
  constructor
  · intro hz
    have hcount := h.count
    have hdry := h.dry hz
    have hfew : (xs.filter (· ≠ 0)).length < xs.length :=
      List.length_filter_lt_length_iff_exists.2 ⟨0, hz, by simp⟩
    omega
  · intro hlt
    by_contra hz
    have hall := h.count_of_nonzero hz
    omega

end Pfa

namespace Memory

section Loading

variable {m : Memory} {d : Nat}

/-! ## The copy of the module -/

/-- A store of a longer prefix of a buffer that agrees on the shorter one. -/
theorem update_store_of_eq (phys : ByteMemory) (x n : Nat) {buf buf' : Nat → UInt8}
    (h : ∀ i, i < n → buf' i = buf i) :
    Function.update (phys.store x n buf) (x + n) (buf' n) = phys.store x (n + 1) buf' := by
  have hsame : phys.store x n buf = phys.store x n buf' := by
    funext y
    simp only [ByteMemory.store]
    split
    · rw [h _ (by omega)]
    · rfl
  rw [hsame, ByteMemory.update_store]

/-- The first bytes of a buffer, followed by zeros. -/
def padded (size : Nat) (buf : Nat → UInt8) : Nat → UInt8 := fun i =>
  if i < size then buf i else 0

/-- The copy writes the whole page; its first bytes are those of the module when the
module does not lie in the page. -/
theorem copyBytes_eq (h : m.WindowClosed) {b : Nat} (hb : b < 2 ^ 20) (modStart : Nat) {size : Nat}
    (hsize : size ≤ 4096) :
    ∃ buf : Nat → UInt8,
      m.copyBytes (4096 * b) modStart size =
        { m with phys := m.phys.store (4096 * b) 4096 buf } ∧
      (∀ i, size ≤ i → i < 4096 → buf i = 0) ∧
      ((∀ i, i < size → (modStart + i) / 4096 ≠ b) →
        ∀ i, i < size → buf i = m.phys (modStart + i)) := by
  -- Reading goes on while the page is being written, so the buffer is built along the loop.
  have hcopy : ∃ buf : Nat → UInt8,
      forRange size (fun i mm => mm.writeByte ⟨4096 * b⟩ i (mm.phys (modStart + i))) (m.opened b) =
        ({ m with phys := m.phys.store (4096 * b) size buf } : Memory).opened b ∧
      ((∀ i, i < size → (modStart + i) / 4096 ≠ b) →
        ∀ i, i < size → buf i = m.phys (modStart + i)) := by
    refine forRange_induct (fun n (mm : Memory) => ∃ buf : Nat → UInt8,
      mm = ({ m with phys := m.phys.store (4096 * b) n buf } : Memory).opened b ∧
        ((∀ i, i < size → (modStart + i) / 4096 ≠ b) →
          ∀ i, i < n → buf i = m.phys (modStart + i))) ?_ ?_
    · exact ⟨fun _ => 0, by simp, fun _ i hi => by omega⟩
    · rintro n hn mm ⟨buf, rfl, hbuf⟩
      rw [opened_writeByte _ hb]
      have hagree : ∀ i, i < n → Function.update buf n
          (m.phys.store (4096 * b) n buf (modStart + n)) i = buf i := fun i hi =>
        Function.update_of_ne (by omega) _ _
      have hstep := update_store_of_eq m.phys (4096 * b) n hagree
      rw [Function.update_self] at hstep
      refine ⟨Function.update buf n (m.phys.store (4096 * b) n buf (modStart + n)), ?_, ?_⟩
      · simp only [← hstep]
        rfl
      · intro hapart i hi
        by_cases hin : i = n
        · subst hin
          have hout := hapart i hn
          rw [Function.update_self]
          simp only [ByteMemory.store]
          rw [if_neg (by omega)]
        · rw [hagree i (by omega)]
          exact hbuf hapart i (by omega)
  obtain ⟨buf, hloop, hbuf⟩ := hcopy
  have hclear : ∀ n, forRange n (fun i mm => mm.writeByte ⟨4096 * b⟩ (size + i) 0)
      (({ m with phys := m.phys.store (4096 * b) size buf } : Memory).opened b) =
        ({ m with phys := m.phys.store (4096 * b) (size + n) (padded size buf) } :
          Memory).opened b := by
    intro n
    induction n with
    | zero =>
        have hsame : m.phys.store (4096 * b) size buf =
            m.phys.store (4096 * b) size (padded size buf) := by
          funext y
          simp only [ByteMemory.store, padded]
          split
          · rw [if_pos (by omega)]
          · rfl
        rw [forRange_zero, Nat.add_zero, hsame]
    | succ n ih =>
        rw [forRange_succ, ih, opened_writeByte _ hb]
        have hstep := ByteMemory.update_store m.phys (4096 * b) (size + n) (padded size buf)
        rw [show padded size buf (size + n) = 0 from if_neg (by omega), Nat.add_assoc] at hstep
        simp only [← Nat.add_assoc] at hstep ⊢
        rw [hstep]
  refine ⟨padded size buf, ?_, fun i hi _ => if_neg (by omega), fun hapart i hi => ?_⟩
  · simp only [copyBytes, pagingTempMap_eq m hb]
    have hloop' : forRange size (fun i mm => mm.writeByte ⟨4096 * b⟩ i (mm.phys (modStart + i)))
        (m.opened b) =
          ({ m with phys := m.phys.store (4096 * b) size buf } : Memory).opened b := hloop
    rw [hloop', hclear, show size + (4096 - size) = 4096 by omega]
    exact opened_pagingTempUnmap (m := { m with phys := m.phys.store (4096 * b) 4096 _ }) h b
  · rw [padded, if_pos hi]
    exact hbuf hapart i hi

/-! ## The words of the new space -/

/-- Memory when the table of the module's pages is complete. -/
def tablePhys (phys : ByteMemory) (d a b c : Nat) : ByteMemory :=
  (((phys.fill (4096 * a) 4096 0).setWord d 0 (4096 * a + 7)).setWord a 0 (4096 * b + 7)).setWord
    a 1 (4096 * c + 7)

/-- Memory when the stack is mapped. -/
def stackPhys (phys : ByteMemory) (d e g : Nat) : ByteMemory :=
  ((phys.fill (4096 * e) 4096 0).setWord e 1023 (4096 * g + 7)).setWord d 767 (4096 * e + 7)

/-- What a new space looks like: directory {lit}`d`, the module's table {lit}`a` with pages
{lit}`b` and {lit}`c`, the stack's table {lit}`e` with page {lit}`g`. -/
structure Loaded (phys₀ phys : ByteMemory) (d a b c e g : Nat) : Prop where
  dir : ∀ i, i < 1024 → phys.word d i =
    if i = 0 then 4096 * a + 7 else if i = 767 then 4096 * e + 7 else phys₀.word d i
  table : a ≠ 0 → ∀ j, j < 1024 → phys.word a j =
    if j = 0 then 4096 * b + 7 else if j = 1 then 4096 * c + 7 else 0
  stackTable : ∀ j, j < 1024 → phys.word e j = if j = 1023 then 4096 * g + 7 else 0
  others : ∀ f, f ≠ d → f ≠ a → f ≠ b → f ≠ e → ByteMemory.BlockEq phys₀ phys f

/-- The frames of one call: nonzero ones are distinct, and after a failure all fail. -/
structure SixFrames (d a b c e g : Nat) : Prop where
  distinct : [d, a, b, c, e, g].Pairwise fun x y => y ≠ 0 → x ≠ 0 ∧ x ≠ y
  bound : ∀ x ∈ [d, a, b, c, e, g], x < 2 ^ 20
  dir_ne : d ≠ 0

variable {a b c e g : Nat}

/-- Of two draws, an earlier frame differs from a later one. -/
theorem ne_of_drawn {x y : Nat} (h : y ≠ 0 → x ≠ 0 ∧ x ≠ y) (hx : x ≠ 0) : x ≠ y := by
  rintro rfl
  exact (h hx).2 rfl

/-- Of two draws, the later one fails when the earlier one does. -/
theorem zero_of_drawn {x y : Nat} (h : y ≠ 0 → x ≠ 0 ∧ x ≠ y) (hx : x = 0) : y = 0 := by
  by_contra hy
  exact (h hy).1 hx

/-- The separate inequalities that the proofs use. -/
theorem SixFrames.facts (h : SixFrames d a b c e g) :
    (d ≠ a ∧ d ≠ b ∧ d ≠ c ∧ d ≠ e ∧ d ≠ g) ∧ (a ≠ 0 → a ≠ b ∧ a ≠ c ∧ a ≠ e ∧ a ≠ g) ∧
      (b ≠ 0 → b ≠ c ∧ b ≠ e ∧ b ≠ g) ∧ (c ≠ 0 → c ≠ e ∧ c ≠ g) ∧ (e ≠ 0 → e ≠ g) ∧
      (a = 0 → b = 0) ∧ (b = 0 → c = 0) ∧ (c = 0 → e = 0) ∧ (e = 0 → g = 0) := by
  have h0 := h.dir_ne
  have hpairs := h.distinct
  simp only [List.pairwise_cons, List.mem_cons, List.not_mem_nil, or_false, forall_eq_or_imp,
    forall_eq] at hpairs
  obtain ⟨⟨hda, hdb, hdc, hde, hdg⟩, ⟨hab, hac, hae, hag⟩, ⟨hbc, hbe, hbg⟩, ⟨hce, hcg⟩, heg, -⟩ :=
    hpairs
  refine ⟨⟨ne_of_drawn hda h0, ne_of_drawn hdb h0, ne_of_drawn hdc h0, ne_of_drawn hde h0,
    ne_of_drawn hdg h0⟩, fun ha => ⟨ne_of_drawn hab ha, ne_of_drawn hac ha, ne_of_drawn hae ha,
    ne_of_drawn hag ha⟩, fun hb => ⟨ne_of_drawn hbc hb, ne_of_drawn hbe hb, ne_of_drawn hbg hb⟩,
    fun hc => ⟨ne_of_drawn hce hc, ne_of_drawn hcg hc⟩, ne_of_drawn heg, zero_of_drawn hab,
    zero_of_drawn hbc, zero_of_drawn hce, zero_of_drawn heg⟩

/-- The table is written in its own frame and in the directory. -/
theorem tablePhys_blockEq {phys₀ : ByteMemory} {f : Nat} (hfd : f ≠ d) (hfa : f ≠ a) :
    ByteMemory.BlockEq phys₀ (tablePhys phys₀ d a b c) f :=
  ((ByteMemory.blockEq_setWord _ (by norm_num) hfa).trans
    ((ByteMemory.blockEq_setWord _ (by norm_num) hfa).trans
      ((ByteMemory.blockEq_setWord _ (by norm_num) hfd).trans
        (ByteMemory.blockEq_fill _ hfa)))).symm

theorem loaded_phys (h : SixFrames d a b c e g) (phys₀ : ByteMemory) (buf : Nat → UInt8) :
    Loaded phys₀ (stackPhys ((tablePhys phys₀ d a b c).store (4096 * b) 4096 buf) d e g)
      d a b c e g ∧
    (b ≠ 0 → ∀ o, o < 4096 →
      stackPhys ((tablePhys phys₀ d a b c).store (4096 * b) 4096 buf) d e g (4096 * b + o) =
        buf o) := by
  obtain ⟨⟨hda, hdb, hdc, hde, hdg⟩, ha, hb, -, -, hab, hbc, hce, heg⟩ := h.facts
  have hbound := h.bound
  simp only [List.mem_cons, List.not_mem_nil, or_false, forall_eq_or_imp, forall_eq] at hbound
  obtain ⟨hd20, ha20, hb20, hc20, he20, hg20⟩ := hbound
  -- Each frame keeps its words through the writes to the other frames.
  have hstack : ∀ (phys : ByteMemory) f, f ≠ d → f ≠ e →
      ByteMemory.BlockEq phys (stackPhys phys d e g) f := by
    intro phys f hfd hfe
    refine ((ByteMemory.blockEq_setWord _ (by norm_num) hfd).trans
      ((ByteMemory.blockEq_setWord _ (by norm_num) hfe).trans
        (ByteMemory.blockEq_fill _ hfe))).symm
  have hcopy : ∀ (phys : ByteMemory) f, f ≠ b →
      ByteMemory.BlockEq phys (phys.store (4096 * b) 4096 buf) f := fun phys f hfb =>
    (ByteMemory.blockEq_store _ le_rfl hfb).symm
  refine ⟨⟨fun i hi => ?_, fun ha0 j hj => ?_, fun j hj => ?_, fun f hfd hfa hfb hfe => ?_⟩,
    fun hb0 o ho => ?_⟩
  · have hdir : ∀ i, i < 1024 → (tablePhys phys₀ d a b c).word d i =
        if i = 0 then 4096 * a + 7 else phys₀.word d i := by
      intro i hi
      unfold tablePhys
      rw [ByteMemory.word_setWord _ (by omega) (by norm_num) hi, if_neg (by omega),
        ByteMemory.word_setWord _ (by omega) (by norm_num) hi, if_neg (by omega),
        ByteMemory.word_setWord _ (by omega) (by norm_num) hi,
        (ByteMemory.blockEq_fill phys₀ hda).word hi]
      simp
    have hmid := (hcopy (tablePhys phys₀ d a b c) d hdb).word hi
    unfold stackPhys
    rw [ByteMemory.word_setWord _ (by omega) (by norm_num) hi,
      ByteMemory.word_setWord _ (by omega) (by norm_num) hi,
      if_neg (show ¬ (d = e ∧ i = 1023) from fun h => hde h.1),
      (ByteMemory.blockEq_fill _ hde).word hi, ← hmid, hdir i hi]
    by_cases h767 : i = 767
    · rw [if_pos ⟨rfl, h767⟩, if_neg (by omega), if_pos h767]
    · rw [if_neg (fun h => h767 h.2), if_neg h767]
  · obtain ⟨hane, hanc, hanee, hang⟩ := ha ha0
    rw [← (hstack _ a hda.symm hanee).word hj, ← (hcopy _ a hane).word hj]
    unfold tablePhys
    rw [ByteMemory.word_setWord _ (by omega) (by norm_num) hj,
      ByteMemory.word_setWord _ (by omega) (by norm_num) hj,
      ByteMemory.word_setWord _ (by omega) (by norm_num) hj,
      if_neg (show ¬ (a = d ∧ j = 0) from fun h => hda h.1.symm), ByteMemory.word_fill_zero _ hj]
    by_cases hj0 : j = 0
    · subst hj0
      simp
    · simp [hj0]
  · unfold stackPhys
    rw [ByteMemory.word_setWord _ (by omega) (by norm_num) hj, if_neg (fun h => hde h.1.symm),
      ByteMemory.word_setWord _ (by omega) (by norm_num) hj, ByteMemory.word_fill_zero _ hj]
    simp
  · exact (tablePhys_blockEq hfd hfa).trans ((hcopy _ f hfb).trans (hstack _ f hfd hfe))
  · obtain ⟨hbc', hbe, hbg⟩ := hb hb0
    rw [← hstack _ b hdb.symm hbe (4096 * b + o) (by omega)]
    simp only [ByteMemory.store]
    rw [if_pos (by omega)]
    congr 1
    omega

/-! ## The source functions on drawn frames -/

theorem flags_seven (n : Nat) : 4096 * n ||| 7 = 4096 * n + 7 :=
  frame_or_flags n (by norm_num)

theorem allocPageTable_eq (h : m.WindowClosed) {f : Nat} {p : Pfa} (hf : f < 2 ^ 20)
    (hrun : m.pfa.pfaAlloc = (4096 * f, p)) :
    m.allocPageTable = (4096 * f, { m with pfa := p, phys := m.phys.fill (4096 * f) 4096 0 }) := by
  simp only [allocPageTable, pfaAlloc, hrun]
  rw [zeroTable_eq (m := { m with pfa := p }) h hf]

theorem allocPageFrames_eq (h : m.WindowClosed) {p p' : Pfa} (ha : a < 2 ^ 20)
    (hb : m.pfa.pfaAlloc = (4096 * b, p)) (hc : p.pfaAlloc = (4096 * c, p')) :
    m.allocPageFrames (4096 * a) = { m with
      pfa := p'
      phys := (m.phys.setWord a 0 (4096 * b + 7)).setWord a 1 (4096 * c + 7) } := by
  simp only [allocPageFrames, pfaAlloc, hb, hc]
  rw [pagingTempMap_eq _ ha]
  simp only
  rw [opened_writeWord _ ha, opened_writeWord _ ha, flags_seven, flags_seven]
  exact opened_pagingTempUnmap (m := { m with
    pfa := p'
    phys := (m.phys.setWord a 0 (4096 * b + 7)).setWord a 1 (4096 * c + 7) }) h a

theorem allocStack_eq (h : m.WindowClosed) {p p' : Pfa} (hd : d < 2 ^ 20) (he : e < 2 ^ 20)
    (hrun : m.pfa.pfaAlloc = (4096 * e, p)) (hrun' : p.pfaAlloc = (4096 * g, p')) :
    m.allocStack (4096 * d) = { m with pfa := p', phys := stackPhys m.phys d e g } := by
  simp only [allocStack, allocPageTable_eq h he hrun, pfaAlloc, hrun', flags_seven]
  rw [pokeWord_eq (m := { m with pfa := p', phys := m.phys.fill (4096 * e) 4096 0 }) h he,
    pokeWord_eq (m := { m with
      pfa := p'
      phys := (m.phys.fill (4096 * e) 4096 0).setWord e (0xBFFFF000 / 2 ^ 12 % 1024)
        (4096 * g + 7) }) h hd]
  rfl

/-- The number of bytes that {lit}`copy_module` copies. -/
def copySize (modStart modEnd : Nat) : Nat :=
  min 4096 (u32 (modEnd + 2 ^ 32 - modStart))

/-- Reading the module faults: its first page reaches above the identity mapping. -/
def ReadFaults (modStart modEnd : Nat) : Prop :=
  0 < copySize modStart modEnd ∧ 0x400000 < modStart + copySize modStart modEnd

instance (modStart modEnd : Nat) : Decidable (ReadFaults modStart modEnd) :=
  inferInstanceAs (Decidable (_ ∧ _))

theorem copyModule_eq (modStart modEnd frame : Nat) :
    m.copyModule frame modStart modEnd =
      if ReadFaults modStart modEnd then none
      else some (m.copyBytes frame modStart (copySize modStart modEnd)) := by
  have hsize : (if u32 (modEnd + 2 ^ 32 - modStart) > 4096 then 4096
      else u32 (modEnd + 2 ^ 32 - modStart)) = copySize modStart modEnd := by
    unfold copySize
    split <;> omega
  simp only [copyModule, hsize]
  rfl

/-- The part of {lit}`create_pcb_grub_modules` before the module is copied: the frame for the
first page, which is read back from its table. -/
def loadTable (m : Memory) (pdtPhys : Nat) : Nat × Memory :=
  let (ptPhys, m) := m.allocPageTable
  let m := m.pokeWord pdtPhys 0 (ptPhys ||| 7)
  let m := m.allocPageFrames ptPhys
  let (pte, m) := m.peekWord ptPhys 0
  (frameBits pte, m)

theorem loadModule_eq (m : Memory) (pdtPhys modStart modEnd : Nat) :
    m.loadModule pdtPhys modStart modEnd =
      ((m.loadTable pdtPhys).2.copyModule (m.loadTable pdtPhys).1 modStart modEnd).map
        fun mm => mm.allocStack pdtPhys :=
  rfl

/-- The frames that are drawn, 0 where there was none, are frames of 32-bit addresses. -/
theorem Drawn.lt (hok : MemOk m) {xs : List Nat} {p : Pfa} (h : Pfa.Drawn m.pfa xs p) :
    ∀ x ∈ xs, x < 2 ^ 20 := by
  intro x hx
  by_cases hx0 : x = 0
  · omega
  · exact (hok.managed (Free.managed (h.fresh x hx hx0))).2

/-- The table with its two pages. -/
theorem loadTable_eq (hok : MemOk m) (hd : d < 2 ^ 20) :
    ∃ a b c p, Pfa.Drawn m.pfa [a, b, c] p ∧
      m.loadTable (4096 * d) = (4096 * b, { m with pfa := p, phys := tablePhys m.phys d a b c }) := by
  have hclosed := hok.closed
  obtain ⟨a, p₁, hrun₁, hdraw₁⟩ := (Pfa.Drawn.nil m.pfa).draw hok.window
  obtain ⟨b, p₂, hrun₂, hdraw₂⟩ := hdraw₁.draw hok.window
  obtain ⟨c, p₃, hrun₃, hdraw₃⟩ := hdraw₂.draw hok.window
  simp only [List.nil_append, List.cons_append] at hdraw₃
  have ha20 := Drawn.lt hok hdraw₃ a (by simp)
  have hb20 := Drawn.lt hok hdraw₃ b (by simp)
  have hc20 := Drawn.lt hok hdraw₃ c (by simp)
  have hframes : ({ m with pfa := p₁, phys := m.phys.fill (4096 * a) 4096 0 } :
      Memory).pokeWord (4096 * d) 0 (4096 * a ||| 7) = { m with
        pfa := p₁
        phys := (m.phys.fill (4096 * a) 4096 0).setWord d 0 (4096 * a + 7) } := by
    rw [pokeWord_eq (m := { m with pfa := p₁, phys := m.phys.fill (4096 * a) 4096 0 }) hclosed hd,
      flags_seven]
  have htable : ({ m with
      pfa := p₁
      phys := (m.phys.fill (4096 * a) 4096 0).setWord d 0 (4096 * a + 7) } :
        Memory).allocPageFrames (4096 * a) = { m with
          pfa := p₃
          phys := tablePhys m.phys d a b c } :=
    allocPageFrames_eq (m := { m with
      pfa := p₁
      phys := (m.phys.fill (4096 * a) 4096 0).setWord d 0 (4096 * a + 7) }) hclosed ha20 hrun₂ hrun₃
  have hword : (tablePhys m.phys d a b c).word a 0 = 4096 * b + 7 := by
    unfold tablePhys
    rw [ByteMemory.word_setWord _ (by omega) (by norm_num) (by norm_num), if_neg (by omega),
      ByteMemory.word_setWord _ (by omega) (by norm_num) (by norm_num), if_pos ⟨rfl, rfl⟩]
  have hentry : frameBits (4096 * b + 7) = 4096 * b := by
    rw [frameBits_eq (by omega)]
    omega
  refine ⟨a, b, c, p₃, hdraw₃, ?_⟩
  simp only [loadTable, allocPageTable_eq hclosed ha20 hrun₁]
  rw [hframes, htable, peekWord_eq (m := { m with
    pfa := p₃
    phys := tablePhys m.phys d a b c }) hclosed ha20]
  simp only [hword, hentry]

/-- What {lit}`create_pcb_grub_modules` does behind the directory in frame {lit}`d`, with the
frames it draws. -/
theorem loadModule_cases (hok : MemOk m) (hd : d < 2 ^ 20) (modStart modEnd : Nat) :
    ∃ a b c e g p, Pfa.Drawn m.pfa [a, b, c, e, g] p ∧
      ((m.loadModule (4096 * d) modStart modEnd = none ∧ ReadFaults modStart modEnd) ∨
        ¬ ReadFaults modStart modEnd ∧ ∃ buf : Nat → UInt8,
          m.loadModule (4096 * d) modStart modEnd = some { m with
            pfa := p
            phys := stackPhys ((tablePhys m.phys d a b c).store (4096 * b) 4096 buf) d e g } ∧
          (∀ i, copySize modStart modEnd ≤ i → i < 4096 → buf i = 0) ∧
          ((∀ i, i < copySize modStart modEnd → (modStart + i) / 4096 ≠ b) →
            ∀ i, i < copySize modStart modEnd →
              buf i = (tablePhys m.phys d a b c) (modStart + i))) := by
  have hclosed := hok.closed
  obtain ⟨a, b, c, p₃, hdraw₃, htable⟩ := loadTable_eq hok hd
  obtain ⟨e, p₄, hrun₄, hdraw₄⟩ := hdraw₃.draw hok.window
  obtain ⟨g, p₅, hrun₅, hdraw₅⟩ := hdraw₄.draw hok.window
  simp only [List.nil_append, List.cons_append] at hdraw₅
  have hb20 := Drawn.lt hok hdraw₅ b (by simp)
  have he20 := Drawn.lt hok hdraw₅ e (by simp)
  have hload := loadModule_eq m (4096 * d) modStart modEnd
  rw [htable] at hload
  refine ⟨a, b, c, e, g, p₅, hdraw₅, ?_⟩
  rw [hload, copyModule_eq]
  split
  · rename_i hfault
    exact .inl ⟨rfl, hfault⟩
  · rename_i hread
    obtain ⟨buf, hcopy, hzero, hbytes⟩ := copyBytes_eq (m := { m with
      pfa := p₃
      phys := tablePhys m.phys d a b c }) hclosed hb20 modStart
        (show copySize modStart modEnd ≤ 4096 from Nat.min_le_left _ _)
    refine .inr ⟨hread, buf, ?_, hzero, hbytes⟩
    rw [hcopy, Option.map_some, Option.some.injEq]
    exact allocStack_eq (m := { m with
      pfa := p₃
      phys := (tablePhys m.phys d a b c).store (4096 * b) 4096 buf }) hclosed hd he20 hrun₄ hrun₅

/-! ## The spaces afterwards -/

/-- A space is kept when its frames are, and frame 0 is or becomes a table that maps only
itself. -/
theorem Space.keepZero {m : Memory} {d : Nat} (h : Space m d) (m' : Memory)
    (hphys : ∀ f, Owns (m.slots d) f → ByteMemory.BlockEq m.phys m'.phys f)
    (hzero : ZeroTable m'.phys) (hdir : m'.pageDirectory = m.pageDirectory)
    (hused : ∀ f, Owns (m.slots d) f → m'.pfa.used f = true ∧ m'.Managed f) :
    Space m' d ∧ ∀ s f, f ≠ 0 → (m'.slots d s = some f ↔ m.slots d s = some f) := by
  have hd := hphys d ⟨h.dir_ne, .dir, rfl⟩
  have htable : ∀ i, m'.slots d (.table i) = m.slots d (.table i) := by
    intro i
    simp only [slots, slotFrame]
    split
    · rename_i hi
      rw [hd.word hi.1]
    · rfl
  -- Behind frame 0 there is only frame 0, before and after.
  have hpage : ∀ i j f, f ≠ 0 → (m'.slots d (.page i j) = some f ↔ m.slots d (.page i j) = some f) := by
    intro i j f hf
    constructor
    · intro hs
      obtain ⟨t, ht, hj, hodd, hft⟩ := slotFrame_page_some hs
      have ht' : m.slots d (.table i) = some t := (htable i) ▸ ht
      by_cases ht0 : t = 0
      · subst ht0
        exact absurd (hft.trans (hzero j hj hodd)) hf
      · have hword := (hphys t ⟨ht0, .table i, ht'⟩).word hj
        rw [← hword] at hodd hft
        rw [slots, slotFrame_page ht' hj, entryFrame_of_odd hodd, hft]
    · intro hs
      obtain ⟨t, ht, hj, hodd, hft⟩ := slotFrame_page_some hs
      have ht' : m'.slots d (.table i) = some t := (htable i).trans ht
      by_cases ht0 : t = 0
      · subst ht0
        exact absurd (hft.trans (h.zero ⟨i, ht⟩ j hj hodd)) hf
      · have hword := (hphys t ⟨ht0, .table i, ht⟩).word hj
        rw [hword] at hodd hft
        rw [slots, slotFrame_page ht' hj, entryFrame_of_odd hodd, hft]
  have hslots : ∀ s f, f ≠ 0 → (m'.slots d s = some f ↔ m.slots d s = some f) := by
    intro s f hf
    cases s with
    | dir => rfl
    | table i => rw [htable i]
    | page i j => exact hpage i j f hf
  refine ⟨⟨h.dir_ne, ?_, fun i hlo hhi => ?_, ?_, ?_, fun _ => hzero⟩, hslots⟩
  · rw [hdir, ← h.kernel]
    exact (hd.word (by norm_num)).symm
  · rw [← h.high i hlo hhi]
    exact (hd.word hhi).symm
  · rintro f ⟨hf, s, hs⟩
    exact hused f ⟨hf, s, (hslots s f hf).1 hs⟩
  · intro s s' f hf hs hs'
    exact h.separate s s' f hf ((hslots s f hf).1 hs) ((hslots s' f hf).1 hs')

/-- The slots of a new space. -/
theorem Loaded.slots_some (m' : Memory) (h : Loaded m.phys m'.phys d a b c e g)
    (hfr : SixFrames d a b c e g) (hempty : ∀ i, i < 1024 → i ≠ 768 → ¬ m.phys.word d i % 2 = 1)
    {s : Slot} {f : Nat} (hs : m'.slots d s = some f) :
    ((s = .dir ∧ f = d) ∨ (s = .table 0 ∧ f = a) ∨ (s = .table 767 ∧ f = e) ∨
      (s = .page 0 0 ∧ f = b) ∨ (s = .page 0 1 ∧ f = c) ∨ (s = .page 767 1023 ∧ f = g)) ∨
      (f = 0 ∧ e = 0) := by
  obtain ⟨-, -, -, -, -, hab, hbc, hce, heg⟩ := hfr.facts
  have htable : ∀ i t, m'.slots d (.table i) = some t → (i = 0 ∧ t = a) ∨ (i = 767 ∧ t = e) := by
    intro i t ht
    obtain ⟨hi, hs768, hodd, htw⟩ := slotFrame_table_some ht
    rw [h.dir i hi] at hodd htw
    by_cases hi0 : i = 0
    · rw [if_pos hi0] at htw
      exact .inl ⟨hi0, by omega⟩
    · rw [if_neg hi0] at hodd htw
      by_cases hi767 : i = 767
      · rw [if_pos hi767] at htw
        exact .inr ⟨hi767, by omega⟩
      · rw [if_neg hi767] at hodd
        exact absurd hodd (hempty i hi hs768)
  have hstack : ∀ j, j < 1024 → m'.phys.word e j % 2 = 1 →
      j = 1023 ∧ m'.phys.word e j / 4096 = g := by
    intro j hj hodd
    rw [h.stackTable j hj] at hodd ⊢
    by_cases hj1023 : j = 1023
    · rw [if_pos hj1023]
      exact ⟨hj1023, by omega⟩
    · rw [if_neg hj1023] at hodd
      cases hodd
  cases s with
  | dir =>
      have hdf : d = f := Option.some.inj hs
      exact .inl (.inl ⟨rfl, hdf.symm⟩)
  | table i =>
      rcases htable i f hs with ⟨rfl, rfl⟩ | ⟨rfl, rfl⟩
      · exact .inl (.inr (.inl ⟨rfl, rfl⟩))
      · exact .inl (.inr (.inr (.inl ⟨rfl, rfl⟩)))
  | page i j =>
      obtain ⟨t, ht, hj, hodd, hft⟩ := slotFrame_page_some hs
      rcases htable i t ht with ⟨rfl, rfl⟩ | ⟨rfl, rfl⟩
      · by_cases hz : t = 0
        · -- The module's table failed, so the stack's table is frame 0 too.
          have he : e = 0 := hce (hbc (hab hz))
          rw [hz, ← he] at hodd hft
          obtain ⟨-, hgz⟩ := hstack j hj hodd
          exact .inr ⟨by rw [hft, hgz]; exact heg he, he⟩
        · rw [h.table hz j hj] at hodd hft
          by_cases hj0 : j = 0
          · rw [if_pos hj0] at hft
            exact .inl (.inr (.inr (.inr (.inl ⟨by rw [hj0], by omega⟩))))
          · rw [if_neg hj0] at hodd hft
            by_cases hj1 : j = 1
            · rw [if_pos hj1] at hft
              exact .inl (.inr (.inr (.inr (.inr (.inl ⟨by rw [hj1], by omega⟩)))))
            · rw [if_neg hj1] at hodd
              cases hodd
      · obtain ⟨hj1023, hgf⟩ := hstack j hj hodd
        exact .inl (.inr (.inr (.inr (.inr (.inr ⟨by rw [hj1023], hft.trans hgf⟩)))))

/-- The frames of a call are apart from each other and from the directory. -/
theorem Spaces.sixFrames {F : Nat → Prop} {safe : Prop} {ds : List Nat} {p : Pfa}
    (h : Spaces F safe m (d :: ds)) (hdraw : Pfa.Drawn m.pfa [a, b, c, e, g] p) :
    SixFrames d a b c e g := by
  have hdir := h.owned List.mem_cons_self (h.dir_owned List.mem_cons_self)
  refine ⟨List.pairwise_cons.2 ⟨fun y hy hy0 => ?_, hdraw.distinct⟩, fun x hx => ?_,
    (h.space d List.mem_cons_self).dir_ne⟩
  · refine ⟨(h.space d List.mem_cons_self).dir_ne, ?_⟩
    rintro rfl
    exact hdir.2.2 (hdraw.fresh d hy hy0)
  · rcases List.mem_cons.1 hx with rfl | hx
    · exact (h.ok.managed hdir.2.1).2
    · by_cases hx0 : x = 0
      · omega
      · exact (h.ok.managed (Free.managed (hdraw.fresh x hx hx0))).2

/-- The slot of a frame of a new space. -/
def place (d a b c e f : Nat) : Slot :=
  if f = d then .dir
  else if f = a then .table 0
  else if f = b then .page 0 0
  else if f = c then .page 0 1
  else if f = e then .table 767
  else .page 767 1023

/-- A frame of a new space has one slot. -/
theorem Loaded.slot_eq_place (m' : Memory) (h : Loaded m.phys m'.phys d a b c e g)
    (hfr : SixFrames d a b c e g) (hempty : ∀ i, i < 1024 → i ≠ 768 → ¬ m.phys.word d i % 2 = 1)
    {s : Slot} {f : Nat} (hf : f ≠ 0) (hs : m'.slots d s = some f) : s = place d a b c e f := by
  have hpairs := hfr.distinct
  simp only [List.pairwise_cons, List.mem_cons, List.not_mem_nil, or_false, forall_eq_or_imp,
    forall_eq] at hpairs
  obtain ⟨⟨hda, hdb, hdc, hde, hdg⟩, ⟨hab, hac, hae, hag⟩, ⟨hbc, hbe, hbg⟩, ⟨hce, hcg⟩, heg, -⟩ :=
    hpairs
  unfold place
  rcases h.slots_some m' hfr hempty hs with (⟨rfl, h1⟩ | ⟨rfl, h1⟩ | ⟨rfl, h1⟩ | ⟨rfl, h1⟩ |
    ⟨rfl, h1⟩ | ⟨rfl, h1⟩) | ⟨h1, -⟩
  · rw [if_pos h1]
  · subst h1
    rw [if_neg (hda hf).2.symm, if_pos rfl]
  · subst h1
    rw [if_neg (hde hf).2.symm, if_neg (hae hf).2.symm, if_neg (hbe hf).2.symm,
      if_neg (hce hf).2.symm, if_pos rfl]
  · subst h1
    rw [if_neg (hdb hf).2.symm, if_neg (hab hf).2.symm, if_pos rfl]
  · subst h1
    rw [if_neg (hdc hf).2.symm, if_neg (hac hf).2.symm, if_neg (hbc hf).2.symm, if_pos rfl]
  · subst h1
    rw [if_neg (hdg hf).2.symm, if_neg (hag hf).2.symm, if_neg (hbg hf).2.symm,
      if_neg (hcg hf).2.symm, if_neg (heg hf).2.symm]
  · exact absurd h1 hf

/-- The slots of a new space have its directory and the drawn frames. -/
theorem Loaded.mem_of_slot (m' : Memory) (h : Loaded m.phys m'.phys d a b c e g)
    (hfr : SixFrames d a b c e g) (hempty : ∀ i, i < 1024 → i ≠ 768 → ¬ m.phys.word d i % 2 = 1)
    {s : Slot} {f : Nat} (hs : m'.slots d s = some f) : f = d ∨ f ∈ [a, b, c, e, g] := by
  rcases h.slots_some m' hfr hempty hs with (⟨-, rfl⟩ | ⟨-, rfl⟩ | ⟨-, rfl⟩ | ⟨-, rfl⟩ | ⟨-, rfl⟩ |
    ⟨-, rfl⟩) | ⟨rfl, rfl⟩
  · exact .inl rfl
  all_goals exact .inr (by simp)

/-- When the stack's table failed, frame 0 is a table that maps only itself. -/
theorem Loaded.zeroTable {phys₀ phys : ByteMemory} (h : Loaded phys₀ phys d a b c e g)
    (he : e = 0) (hg : g = 0) : ZeroTable phys := by
  intro j hj hodd
  have hword := h.stackTable j hj
  rw [he, hg] at hword
  rw [hword]
  split <;> norm_num

section Spaces

variable {F : Nat → Prop} {safe : Prop} {ds : List Nat} {p : Pfa} {phys : ByteMemory}

theorem Drawn.managed (hdraw : Pfa.Drawn m.pfa [a, b, c, e, g] p) {f : Nat} (hf : m.Managed f) :
    ({ m with pfa := p, phys := phys } : Memory).Managed f :=
  ⟨hdraw.startFrame ▸ hf.1, hdraw.totalFrames ▸ hf.2⟩

/-- The new space. -/
theorem Spaces.load_new (h : Spaces F safe m (d :: ds))
    (hempty : ∀ i, i < 1024 → i ≠ 768 → ¬ m.phys.word d i % 2 = 1)
    (hdraw : Pfa.Drawn m.pfa [a, b, c, e, g] p) (hload : Loaded m.phys phys d a b c e g) :
    Space { m with pfa := p, phys := phys } d := by
  have hfr := h.sixFrames hdraw
  obtain ⟨-, -, -, -, -, hab, hbc, hce, heg⟩ := hfr.facts
  have hspace := h.space d List.mem_cons_self
  have hdused := hspace.used d (h.dir_owned List.mem_cons_self)
  refine ⟨hspace.dir_ne, ?_, fun i hlo hhi => ?_, fun f hf => ?_, ?_, ?_⟩
  · refine (hload.dir 768 (by norm_num)).trans ?_
    rw [if_neg (by norm_num), if_neg (by norm_num)]
    exact hspace.kernel
  · refine (hload.dir i hhi).trans ?_
    rw [if_neg (by omega), if_neg (by omega)]
    exact hspace.high i hlo hhi
  · obtain ⟨hf0, s, hs⟩ := hf
    rcases hload.mem_of_slot { m with pfa := p, phys := phys } hfr hempty hs with
      rfl | hmem
    · exact ⟨(hdraw.used _).2 (.inl hdused.1), Drawn.managed hdraw hdused.2⟩
    · exact ⟨(hdraw.used f).2 (.inr ⟨hmem, hf0⟩),
        Drawn.managed hdraw (Free.managed (hdraw.fresh f hmem hf0))⟩
  · intro s s' f hf0 hs hs'
    rw [hload.slot_eq_place { m with pfa := p, phys := phys } hfr hempty hf0 hs,
      hload.slot_eq_place { m with pfa := p, phys := phys } hfr hempty hf0 hs']
  · rintro ⟨i, hi⟩
    have he0 : e = 0 := by
      rcases hload.slots_some { m with pfa := p, phys := phys } hfr hempty hi with
        (⟨hcon, -⟩ | ⟨-, h1⟩ | ⟨-, h1⟩ | ⟨hcon, -⟩ | ⟨hcon, -⟩ | ⟨hcon, -⟩) | ⟨-, h1⟩
      · cases hcon
      · exact hce (hbc (hab h1.symm))
      · exact h1.symm
      · cases hcon
      · cases hcon
      · cases hcon
      · exact h1
    exact hload.zeroTable he0 (heg he0)

/-- The other spaces: their frames are neither drawn nor the new directory. -/
theorem Spaces.load_others (h : Spaces F safe m (d :: ds))
    (hdraw : Pfa.Drawn m.pfa [a, b, c, e, g] p) (hload : Loaded m.phys phys d a b c e g)
    {d' : Nat} (hd' : d' ∈ ds) :
    Space { m with pfa := p, phys := phys } d' ∧
      (∀ s f, f ≠ 0 → (({ m with pfa := p, phys := phys } : Memory).slots d' s = some f ↔
        m.slots d' s = some f)) ∧
      (e ≠ 0 → ({ m with pfa := p, phys := phys } : Memory).slots d' = m.slots d') := by
  obtain ⟨-, -, -, -, -, hab, hbc, hce, heg⟩ := (h.sixFrames hdraw).facts
  have hapart := (List.pairwise_cons.1 h.apart).1
  have hspace := h.space d' (List.mem_cons_of_mem _ hd')
  have hother : ∀ f, Owns (m.slots d') f → ByteMemory.BlockEq m.phys phys f := by
    intro f hf
    have hf' := h.owned (List.mem_cons_of_mem _ hd') hf
    have hne : ∀ x ∈ [a, b, c, e, g], f ≠ x := by
      rintro x hx rfl
      exact hf'.2.2 (hdraw.fresh f hx hf.1)
    refine hload.others f ?_ (hne a (by simp)) (hne b (by simp)) (hne e (by simp))
    rintro rfl
    exact hapart d' hd' f (h.dir_owned List.mem_cons_self) hf
  have huse : ∀ f, Owns (m.slots d') f → p.used f = true ∧
      ({ m with pfa := p, phys := phys } : Memory).Managed f := fun f hf =>
    ⟨(hdraw.used f).2 (.inl (hspace.used f hf).1), Drawn.managed hdraw (hspace.used f hf).2⟩
  by_cases he0 : e = 0
  · obtain ⟨hsp, hslots⟩ := hspace.keepZero { m with pfa := p, phys := phys }
      hother (hload.zeroTable he0 (heg he0)) rfl huse
    exact ⟨hsp, hslots, fun hne => absurd he0 hne⟩
  · have hframe0 : ByteMemory.BlockEq m.phys phys 0 := by
      refine hload.others 0 (h.space d List.mem_cons_self).dir_ne.symm ?_ ?_ (Ne.symm he0)
      · exact fun ha0 => he0 (hce (hbc (hab ha0.symm)))
      · exact fun hb0 => he0 (hce (hbc hb0.symm))
    obtain ⟨hsp, hslots⟩ := hspace.keep { m with pfa := p, phys := phys }
      (fun f hf => by
        rcases hf with hf | rfl
        · exact hother f hf
        · exact hframe0) rfl huse
    exact ⟨hsp, fun s f _ => by rw [hslots], fun _ => hslots⟩

/-- After a call the spaces are as they should be; unless an allocation failed no slot
has frame 0. -/
theorem Spaces.load (h : Spaces F safe m (d :: ds))
    (hempty : ∀ i, i < 1024 → i ≠ 768 → ¬ m.phys.word d i % 2 = 1)
    (hdraw : Pfa.Drawn m.pfa [a, b, c, e, g] p) (hload : Loaded m.phys phys d a b c e g) :
    Spaces F (safe ∧ 0 ∉ [a, b, c, e, g]) { m with pfa := p, phys := phys } (d :: ds) := by
  have hfr := h.sixFrames hdraw
  obtain ⟨hapart, hrest⟩ := List.pairwise_cons.1 h.apart
  have hspace := h.space d List.mem_cons_self
  have hok : MemOk ({ m with pfa := p, phys := phys } : Memory) :=
    ⟨h.ok.closed, hdraw.startFrame ▸ h.ok.window.1, hdraw.totalFrames ▸ h.ok.window.2⟩
  have hkeep := fun {d' : Nat} (hd' : d' ∈ ds) => h.load_others hdraw hload hd'
  have hmem := fun {s : Slot} {f : Nat} hs =>
    @Loaded.mem_of_slot m d a b c e g { m with pfa := p, phys := phys } hload hfr hempty s f hs
  refine ⟨hok, h.pde, fun d' hd' => ?_, List.pairwise_cons.2 ⟨fun d' hd' f hf hf' => ?_, ?_⟩,
    fun f hf => ⟨(hdraw.used f).2 (.inl (h.kept f hf).1), fun d' hd' howns => ?_⟩,
    fun hs d' hd' => ?_⟩
  · rcases List.mem_cons.1 hd' with rfl | hd'
    · exact h.load_new hempty hdraw hload
    · exact (hkeep hd').1
  · obtain ⟨hf0, s', hs'⟩ := hf'
    obtain ⟨-, s, hs⟩ := hf
    have howned : Owns (m.slots d') f := ⟨hf0, s', ((hkeep hd').2.1 s' f hf0).1 hs'⟩
    rcases hmem hs with rfl | hdrawn
    · exact hapart d' hd' f (h.dir_owned List.mem_cons_self) howned
    · exact (h.owned (List.mem_cons_of_mem _ hd') howned).2.2 (hdraw.fresh f hdrawn hf0)
  · refine hrest.imp_of_mem fun {x y} hx hy hxy f hfx hfy => ?_
    obtain ⟨hf0, s, hs⟩ := hfx
    obtain ⟨-, s', hs'⟩ := hfy
    exact hxy f ⟨hf0, s, ((hkeep hx).2.1 s f hf0).1 hs⟩ ⟨hf0, s', ((hkeep hy).2.1 s' f hf0).1 hs'⟩
  · obtain ⟨hf0, s, hs⟩ := howns
    rcases List.mem_cons.1 hd' with rfl | hd'
    · rcases hmem hs with rfl | hdrawn
      · exact (h.kept _ hf).2 _ List.mem_cons_self (h.dir_owned List.mem_cons_self)
      · have hu := (h.kept f hf).1
        rw [(hdraw.fresh f hdrawn hf0).2.2] at hu
        cases hu
    · exact (h.kept f hf).2 d' (List.mem_cons_of_mem _ hd')
        ⟨hf0, s, ((hkeep hd').2.1 s f hf0).1 hs⟩
  · rcases List.mem_cons.1 hd' with rfl | hd'
    · intro s hs'
      rcases hmem hs' with h0 | h0
      · exact hspace.dir_ne h0.symm
      · exact hs.2 h0
    · have he0 : e ≠ 0 := fun he0 => hs.2 (by simp [he0])
      rw [(hkeep hd').2.2 he0]
      exact h.filled hs.1 d' (List.mem_cons_of_mem _ hd')

end Spaces

end Loading

end Memory

end SoKernel
