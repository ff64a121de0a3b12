import SoKernel.Library.ByteMemory

/-!
# Two-level page tables in memory

An address space is a directory of 1024 entries in one block of memory, whose
present entries name tables of 1024 entries, whose present entries name pages.
One directory index may be set aside, for the part that all spaces share.  The
places of an address space are its slots, and each slot has at most one frame.

Main results:

- Theorem {lit}`slotFrame_congr`: the slots depend only on the directory and the
  tables.
- Theorems {lit}`slotFrame_setTable` and {lit}`slotFrame_setPage`: writing one entry
  changes one slot.
- Theorem {lit}`Separate.update`: a frame that no slot has can be put into any slot.
- Theorems {lit}`slotOrder_nodup` and {lit}`mem_slotOrder`: a list that has every filled slot
  once.
-/

namespace SoKernel

/-- The frame a present entry names. -/
def entryFrame (e : Nat) : Option Nat :=
  if e % 2 = 1 then some (e / 4096) else none

/-- An empty entry has no frame. -/
theorem entryFrame_zero : entryFrame 0 = none := by
  simp [entryFrame]

/-- The frame of a present entry. -/
theorem entryFrame_of_odd {e : Nat} (h : e % 2 = 1) : entryFrame e = some (e / 4096) :=
  if_pos h

/-- The places of an address space: its directory, the table behind a directory
entry, and the page behind an entry of that table. -/
inductive Slot where
  | dir
  | table (i : Nat)
  | page (i j : Nat)
deriving DecidableEq

variable {skip : Nat} {m m' : ByteMemory} {d : Nat}

/-- The frame in a slot of the space with directory {lit}`d`, apart from the directory
index {lit}`skip`. -/
def slotFrame (skip : Nat) (m : ByteMemory) (d : Nat) : Slot → Option Nat
  | .dir => some d
  | .table i => if i < 1024 ∧ i ≠ skip then entryFrame (m.word d i) else none
  | .page i j =>
      if j < 1024 then
        (if i < 1024 ∧ i ≠ skip then entryFrame (m.word d i) else none).bind fun t =>
          entryFrame (m.word t j)
      else none

/-- The directory is in its own place. -/
theorem slotFrame_dir : slotFrame skip m d .dir = some d :=
  rfl

/-- The place of a table shows the entry of the directory. -/
theorem slotFrame_table {i : Nat} (hi : i < 1024) (hs : i ≠ skip) :
    slotFrame skip m d (.table i) = entryFrame (m.word d i) :=
  if_pos ⟨hi, hs⟩

/-- The place of a page shows the entry of its table. -/
theorem slotFrame_page {i j t : Nat} (ht : slotFrame skip m d (.table i) = some t)
    (hj : j < 1024) : slotFrame skip m d (.page i j) = entryFrame (m.word t j) := by
  simp only [slotFrame] at ht ⊢
  rw [if_pos hj, ht]
  rfl

/-- Without a table there is no page. -/
theorem slotFrame_page_none {i j : Nat} (ht : slotFrame skip m d (.table i) = none) :
    slotFrame skip m d (.page i j) = none := by
  simp only [slotFrame] at ht ⊢
  rw [ht]
  simp

/-- Where a table is, the directory has a present entry. -/
theorem slotFrame_table_some {i t : Nat} (h : slotFrame skip m d (.table i) = some t) :
    i < 1024 ∧ i ≠ skip ∧ m.word d i % 2 = 1 ∧ t = m.word d i / 4096 := by
  simp only [slotFrame, entryFrame] at h
  split at h
  · rename_i hi
    split at h
    · rename_i hodd
      exact ⟨hi.1, hi.2, hodd, by simpa [eq_comm] using h⟩
    · cases h
  · cases h

/-- Where a page is, a table has a present entry. -/
theorem slotFrame_page_some {i j f : Nat} (h : slotFrame skip m d (.page i j) = some f) :
    ∃ t, slotFrame skip m d (.table i) = some t ∧ j < 1024 ∧ m.word t j % 2 = 1 ∧
      f = m.word t j / 4096 := by
  cases ht : slotFrame skip m d (.table i) with
  | none => rw [slotFrame_page_none ht] at h; cases h
  | some t =>
      by_cases hj : j < 1024
      · rw [slotFrame_page ht hj, entryFrame] at h
        split at h
        · rename_i hodd
          exact ⟨t, rfl, hj, hodd, by simpa [eq_comm] using h⟩
        · cases h
      · simp only [slotFrame, if_neg hj] at h
        cases h

/-- The slots depend only on the directory and the tables. -/
theorem slotFrame_congr (hd : ByteMemory.BlockEq m m' d)
    (ht : ∀ i t, slotFrame skip m d (.table i) = some t → ByteMemory.BlockEq m m' t) :
    slotFrame skip m' d = slotFrame skip m d := by
  have htable : ∀ i, slotFrame skip m' d (.table i) = slotFrame skip m d (.table i) := by
    intro i
    simp only [slotFrame]
    split
    · rename_i hi
      rw [hd.word hi.1]
    · rfl
  funext s
  cases s with
  | dir => rfl
  | table i => exact htable i
  | page i j =>
      cases hi : slotFrame skip m d (.table i) with
      | none => rw [slotFrame_page_none hi, slotFrame_page_none ((htable i).trans hi)]
      | some t =>
          by_cases hj : j < 1024
          · rw [slotFrame_page hi hj, slotFrame_page ((htable i).trans hi) hj, (ht i t hi).word hj]
          · simp only [slotFrame, if_neg hj]

/-! ## Writing one entry -/

/-- An empty directory has no slot but itself. -/
theorem slotFrame_empty (hzero : ∀ i, i < 1024 → i ≠ skip → m.word d i = 0) (s : Slot) :
    slotFrame skip m d s = if s = .dir then some d else none := by
  have htable : ∀ i, slotFrame skip m d (.table i) = none := by
    intro i
    simp only [slotFrame]
    split
    · rename_i hi
      rw [hzero i hi.1 hi.2, entryFrame_zero]
    · rfl
  cases s with
  | dir => rfl
  | table i => simpa using htable i
  | page i j => simpa using slotFrame_page_none (htable i)

/-- Entering a table without entries into a free place of the directory. -/
theorem slotFrame_setTable {i v t : Nat} (hi : i < 1024) (hs : i ≠ skip) (hv : v < 2 ^ 32)
    (hodd : v % 2 = 1) (ht : v / 4096 = t) (hfree : slotFrame skip m d (.table i) = none)
    (hzero : ∀ j, j < 1024 → m.word t j = 0) (htd : t ≠ d)
    (hdir : ∀ i' t', slotFrame skip m d (.table i') = some t' → t' ≠ d) :
    slotFrame skip (m.setWord d i v) d = Function.update (slotFrame skip m d) (.table i) (some t) := by
  have htable : ∀ i', slotFrame skip (m.setWord d i v) d (.table i') =
      Function.update (slotFrame skip m d) (.table i) (some t) (.table i') := by
    intro i'
    by_cases hii : i' = i
    · subst hii
      rw [Function.update_self, slotFrame_table hi hs, ByteMemory.word_setWord m hv hi hi,
        if_pos ⟨rfl, rfl⟩, entryFrame_of_odd hodd, ht]
    · rw [Function.update_of_ne (by simpa using hii)]
      simp only [slotFrame]
      split
      · rename_i hi'
        rw [ByteMemory.word_setWord m hv hi hi'.1, if_neg (fun h => hii h.2)]
      · rfl
  funext s
  cases s with
  | dir => simp [slotFrame]
  | table i' => exact htable i'
  | page i' j =>
      rw [Function.update_of_ne (by simp)]
      by_cases hj : j < 1024
      · by_cases hii : i' = i
        · subst hii
          have hnew : slotFrame skip (m.setWord d i' v) d (.table i') = some t := by
            rw [htable, Function.update_self]
          rw [slotFrame_page hnew hj, slotFrame_page_none hfree,
            ByteMemory.word_setWord m hv hi hj, if_neg (fun h => htd h.1), hzero j hj,
            entryFrame_zero]
        · have hsame : slotFrame skip (m.setWord d i v) d (.table i') =
              slotFrame skip m d (.table i') := by
            rw [htable, Function.update_of_ne (by simpa using hii)]
          cases ht' : slotFrame skip m d (.table i') with
          | none => rw [slotFrame_page_none ht', slotFrame_page_none (hsame.trans ht')]
          | some t' =>
              rw [slotFrame_page ht' hj, slotFrame_page (hsame.trans ht') hj,
                ByteMemory.word_setWord m hv hi hj, if_neg (fun h => hdir i' t' ht' h.1)]
      · simp only [slotFrame, if_neg hj]

/-- Entering a page into a table that stands in one place of the directory. -/
theorem slotFrame_setPage {i j v t f : Nat} (ht : slotFrame skip m d (.table i) = some t)
    (hj : j < 1024) (hv : v < 2 ^ 32) (hodd : v % 2 = 1) (hf : v / 4096 = f) (htd : t ≠ d)
    (honce : ∀ i', slotFrame skip m d (.table i') = some t → i' = i) :
    slotFrame skip (m.setWord t j v) d =
      Function.update (slotFrame skip m d) (.page i j) (some f) := by
  have htable : ∀ i', slotFrame skip (m.setWord t j v) d (.table i') =
      slotFrame skip m d (.table i') := by
    intro i'
    simp only [slotFrame]
    split
    · rename_i hi'
      rw [ByteMemory.word_setWord m hv hj hi'.1, if_neg (fun h => htd h.1.symm)]
    · rfl
  funext s
  cases s with
  | dir => simp [slotFrame]
  | table i' => rw [htable, Function.update_of_ne (by simp)]
  | page i' j' =>
      by_cases hslot : i' = i ∧ j' = j
      · obtain ⟨rfl, rfl⟩ := hslot
        rw [Function.update_self, slotFrame_page ((htable i').trans ht) hj,
          ByteMemory.word_setWord m hv hj hj, if_pos ⟨rfl, rfl⟩, entryFrame_of_odd hodd, hf]
      · rw [Function.update_of_ne (by simpa using hslot)]
        by_cases hj' : j' < 1024
        · cases ht' : slotFrame skip m d (.table i') with
          | none => rw [slotFrame_page_none ht', slotFrame_page_none ((htable i').trans ht')]
          | some t' =>
              rw [slotFrame_page ht' hj', slotFrame_page ((htable i').trans ht') hj',
                ByteMemory.word_setWord m hv hj hj', if_neg]
              rintro ⟨rfl, rfl⟩
              exact hslot ⟨honce i' ht', rfl⟩
        · simp only [slotFrame, if_neg hj']

/-! ## Frames of a space -/

/-- A frame other than 0 that some slot has; frame 0 stands for no frame. -/
def Owns (g : Slot → Option Nat) (f : Nat) : Prop :=
  f ≠ 0 ∧ ∃ s, g s = some f

/-- No frame other than 0 is in two slots. -/
def Separate (g : Slot → Option Nat) : Prop :=
  ∀ s s' f, f ≠ 0 → g s = some f → g s' = some f → s = s'

/-- A frame that no slot has can be put into any slot. -/
theorem Separate.update {g : Slot → Option Nat} (h : Separate g) {s : Slot} {f : Nat}
    (hf : ∀ s', g s' ≠ some f) : Separate (Function.update g s (some f)) := by
  intro a b x hx ha hb
  by_cases has : a = s <;> by_cases hbs : b = s
  · exact has.trans hbs.symm
  · rw [has, Function.update_self] at ha
    rw [Function.update_of_ne hbs] at hb
    exact absurd (hb.trans ha.symm) (hf b)
  · rw [hbs, Function.update_self] at hb
    rw [Function.update_of_ne has] at ha
    exact absurd (ha.trans hb.symm) (hf a)
  · rw [Function.update_of_ne has] at ha
    rw [Function.update_of_ne hbs] at hb
    exact h a b x hx ha hb

/-- Filling an empty place adds one frame. -/
theorem owns_update {g : Slot → Option Nat} {s : Slot} {f x : Nat} (hs : g s = none)
    (hf : f ≠ 0) : Owns (Function.update g s (some f)) x ↔ x = f ∨ Owns g x := by
  constructor
  · rintro ⟨hx, a, ha⟩
    by_cases has : a = s
    · rw [has, Function.update_self] at ha
      exact .inl (Option.some.inj ha).symm
    · rw [Function.update_of_ne has] at ha
      exact .inr ⟨hx, a, ha⟩
  · rintro (rfl | ⟨hx, a, ha⟩)
    · exact ⟨hf, s, Function.update_self ..⟩
    · refine ⟨hx, a, ?_⟩
      rw [Function.update_of_ne]
      · exact ha
      · rintro rfl
        rw [hs] at ha
        cases ha

/-! ## The slots in order -/

/-- The slots behind one directory entry, the table after its pages. -/
def entrySlots (i : Nat) : List Slot :=
  (List.range 1024).map (Slot.page i) ++ [.table i]

/-- All slots, entry by entry, the directory last. -/
def slotOrder : List Slot :=
  (List.range 1024).flatMap entrySlots ++ [.dir]

/-- The places under an entry: its table and the pages. -/
theorem mem_entrySlots {i : Nat} {s : Slot} :
    s ∈ entrySlots i ↔ s = .table i ∨ ∃ j, j < 1024 ∧ s = .page i j := by
  simp only [entrySlots, List.mem_append, List.mem_map, List.mem_range, List.mem_singleton]
  constructor
  · rintro (⟨j, hj, rfl⟩ | rfl)
    · exact .inr ⟨j, hj, rfl⟩
    · exact .inl rfl
  · rintro (rfl | ⟨j, hj, rfl⟩)
    · exact .inr rfl
    · exact .inl ⟨j, hj, rfl⟩

/-- What a function finds behind one entry. -/
theorem filterMap_entrySlots {β : Type} (f : Slot → Option β) (i : Nat) :
    (entrySlots i).filterMap f =
      (List.range 1024).filterMap (fun j => f (.page i j)) ++ (f (.table i)).toList := by
  unfold entrySlots
  rw [List.filterMap_append, List.filterMap_map]
  congr 1

/-- The places under an entry are distinct. -/
theorem entrySlots_nodup (i : Nat) : (entrySlots i).Nodup := by
  refine List.nodup_append.2 ⟨List.nodup_range.map fun j j' h => ?_, List.nodup_singleton _, ?_⟩
  · exact (Slot.page.inj h).2
  · intro s hs t ht hst
    rw [List.mem_singleton.1 ht] at hst
    rw [hst] at hs
    obtain ⟨j, -, hj⟩ := List.mem_map.1 hs
    cases hj

/-- No place is released twice. -/
theorem slotOrder_nodup : slotOrder.Nodup := by
  refine List.nodup_append.2 ⟨List.nodup_flatMap.2 ⟨fun i _ => entrySlots_nodup i, ?_⟩,
    List.nodup_singleton _, ?_⟩
  · refine List.nodup_range.imp fun {i i'} hne s hs hs' => ?_
    rcases mem_entrySlots.1 hs with rfl | ⟨j, -, rfl⟩
    · rcases mem_entrySlots.1 hs' with h | ⟨j, -, h⟩
      · exact hne (Slot.table.inj h)
      · cases h
    · rcases mem_entrySlots.1 hs' with h | ⟨j', -, h⟩
      · cases h
      · exact hne (Slot.page.inj h).1
  · intro s hs t ht hst
    rw [List.mem_singleton.1 ht] at hst
    rw [hst] at hs
    obtain ⟨i, -, hi⟩ := List.mem_flatMap.1 hs
    rcases mem_entrySlots.1 hi with h | ⟨j, -, h⟩
    · cases h
    · cases h

/-- A slot that has a frame is in the order. -/
theorem mem_slotOrder {s : Slot} {f : Nat} (h : slotFrame skip m d s = some f) :
    s ∈ slotOrder := by
  rw [slotOrder, List.mem_append, List.mem_flatMap]
  cases s with
  | dir => exact .inr List.mem_cons_self
  | table i =>
      exact .inl ⟨i, List.mem_range.2 (slotFrame_table_some h).1, mem_entrySlots.2 (.inl rfl)⟩
  | page i j =>
      obtain ⟨t, ht, hj, -⟩ := slotFrame_page_some h
      exact .inl ⟨i, List.mem_range.2 (slotFrame_table_some ht).1,
        mem_entrySlots.2 (.inr ⟨j, hj, rfl⟩)⟩

end SoKernel
