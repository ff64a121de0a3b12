import SoKernel.Memory.FreeList

/-!
# Requests of every size

{lit}`kmalloc` takes any 32-bit size, and its arithmetic is done on 32 bits: the
rounding to headers, the product with their size, the rounding to pages and the
sum with {lit}`heap_current`.  This module follows a request of any size through
it, and looks at what a failed request leaves behind.

Main results:

- Theorem {lit}`HeapOk.search_wraps`: when the sum wraps, the pointer returned lies
  above the new end of the heap.
- Theorem {lit}`HeapOk.search_hangs`: when the rounding to pages wraps, the search
  does not end.
- Theorem {lit}`kmalloc_failure_atomic_iff`: when a failed request changes nothing.
- Theorem {lit}`HeapReady.kmalloc_growth`: by how many pages the heap grows for a request.
- Theorem {lit}`request_met_iff`: for which sizes a request is met or refused.
-/

namespace SoKernel

variable {L : Layout} {s s' : Store} {ts : List (Tile Nat)}

/-! ## The arithmetic of a request -/

/-- The bytes that {lit}`morecore` asks {lit}`ksbrk` for. -/
def coreBytes (nunits : Nat) : Nat :=
  pageAlignUp (u32 ((if nunits < 128 then 128 else nunits) * 8))

/-- The bytes that {lit}`morecore` asks for are whole pages as long as the rounding does not wrap.
-/
theorem coreBytes_eq {nunits : Nat} (h : 8 * nunits ≤ 2 ^ 32 - 4096) :
    coreBytes nunits = 4096 * corePages nunits := by
  simp only [coreBytes, corePages, pageAlignUp, u32]
  split <;> omega

/-- The rounding to pages wraps to 0 at the end of the sizes. -/
theorem coreBytes_eq_zero {nunits : Nat} (hlo : 2 ^ 32 - 4096 < 8 * nunits)
    (hhi : nunits ≤ 2 ^ 29) : coreBytes nunits = 0 := by
  simp only [coreBytes, pageAlignUp, u32]
  split <;> omega

/-- The units of a request as long as the sum does not wrap. -/
theorem unitsFor_of_le {n : Nat} (h : n ≤ 2 ^ 32 - 8) : unitsFor n = (n + 7) / 8 + 1 := by
  simp only [unitsFor, u32]
  omega

/-- The last seven sizes wrap to one header. -/
theorem unitsFor_of_gt {n : Nat} (hlo : 2 ^ 32 - 8 < n) (hhi : n < 2 ^ 32) : unitsFor n = 1 := by
  simp only [unitsFor, u32]
  omega

/-- {lit}`morecore` when {lit}`ksbrk` reports success. -/
theorem morecore_of_ksbrk {nunits p : Nat} (h : s.ksbrk (coreBytes nunits) = (p, s'))
    (hp : p ≠ 0xFFFFFFFF) :
    s.morecore nunits =
      (((s'.heap.setSize p (coreBytes nunits / 8)).kfree (Heap.headerAt p 1)).freep,
        ⟨s'.mem, (s'.heap.setSize p (coreBytes nunits / 8)).kfree (Heap.headerAt p 1)⟩) := by
  unfold coreBytes at h
  simp only [Store.morecore, h, if_neg hp]
  rfl

/-- A growth whose end wraps maps no page and moves the end of the heap down. -/
theorem ksbrk_wraps {k : Nat} (hmax : s.heap.heapMax = 0xC03FF000)
    (htop : s.heap.heapCurrent ≤ 0xC03FF000) (hk : 4096 * k ≤ 2 ^ 32 - 4096)
    (hwrap : 2 ^ 32 ≤ s.heap.heapCurrent + 4096 * k) :
    s.ksbrk (4096 * k) = (s.heap.heapCurrent, { s with heap := { s.heap with
      heapCurrent := s.heap.heapCurrent + 4096 * k - 2 ^ 32 } }) := by
  have hround : pageAlignUp (4096 * k) = 4096 * k := by
    simp only [pageAlignUp, u32]
    omega
  have hsum : u32 (s.heap.heapCurrent + 4096 * k) = s.heap.heapCurrent + 4096 * k - 2 ^ 32 := by
    simp only [u32]
    omega
  have hpasses : (s.heap.heapCurrent + 4096 * k - 2 ^ 32 - s.heap.heapCurrent + 4095) / 4096 = 0 := by
    omega
  simp only [Store.ksbrk, hround, hsum, hpasses]
  rw [if_neg (by omega)]
  rfl

/-- A growth by no bytes reports success. -/
theorem ksbrk_zero (hmax : s.heap.heapMax = 0xC03FF000) (htop : s.heap.heapCurrent ≤ 0xC03FF000) :
    s.ksbrk 0 = (s.heap.heapCurrent, s) := by
  have hround : pageAlignUp 0 = 0 := by decide
  have hsum : u32 (s.heap.heapCurrent + 0) = s.heap.heapCurrent := by
    simp only [u32]
    omega
  have hpasses : (s.heap.heapCurrent - s.heap.heapCurrent + 4095) / 4096 = 0 := by omega
  simp only [Store.ksbrk, hround, hsum, hpasses]
  rw [if_neg (by omega)]
  rfl

theorem Heap.next_current (h : Heap) (c : Nat) : Heap.next { h with heapCurrent := c } = h.next :=
  rfl

theorem Heap.size_current (h : Heap) (c : Nat) : Heap.size { h with heapCurrent := c } = h.size :=
  rfl

/-! ## A release at the end of the heap -/

/-- The circular list from the sentinel {lit}`b`, whose nodes lie at or below {lit}`e`. -/
structure FreeRing (h : Heap) (b e : Nat) (R : List Nat) : Prop where
  ring : IsRing h.next (b :: R)
  sorted : (b :: R).Pairwise (· < ·)
  freep : h.freep ∈ b :: R
  spread : Heap.Spread (b :: R ++ [e])
  below : ∀ x ∈ b :: R, x ≤ e
  first : b < e
  top : e ≤ 0xC03FF000

/-- The free list of a heap in order. -/
theorem HeapShape.freeRing {h : Heap} (hs : HeapShape L h ts) :
    FreeRing h L.base h.heapCurrent (openAddrs ts) := by
  have hbase := base_lt L
  have hle := hs.tiled.le
  have hbelow : ∀ x ∈ L.base :: openAddrs ts, x + 8 ≤ h.heapCurrent := by
    intro x hx
    rcases List.mem_cons.1 hx with rfl | hx
    · omega
    · obtain ⟨t, ht, -, rfl⟩ := mem_openAddrs.1 hx
      have := hs.tiled.bounds ht
      have := hs.bounds ht
      omega
  refine ⟨hs.ring, hs.sorted, hs.freep_mem, ?_, fun x hx => ?_, by omega, hs.top⟩
  · intro x hx y hy
    rcases List.mem_append.1 hx with hx | hx <;> rcases List.mem_append.1 hy with hy | hy
    · exact hs.spread x (HeapShape.ring_subset ts hx) y (HeapShape.ring_subset ts hy)
    · rw [List.mem_singleton.1 hy]
      exact .inr (.inl (hbelow x hx))
    · rw [List.mem_singleton.1 hx]
      exact .inr (.inr (hbelow y hy))
    · exact .inl ((List.mem_singleton.1 hy).trans (List.mem_singleton.1 hx).symm)
  · have := hbelow x hx
    omega

namespace FreeRing

variable {h : Heap} {b e p : Nat} {R A : List Nat}

/-- The nodes are different addresses, so there are fewer than the search may take steps. -/
theorem length_le (hr : FreeRing h b e R) : (b :: R).length ≤ searchFuel := by
  have hnodup : (b :: R).Nodup := hr.sorted.imp fun hlt => hlt.ne
  have hsub : b :: R ⊆ List.range (e + 1) := fun x hx =>
    List.mem_range.2 (Nat.lt_succ_of_le (hr.below x hx))
  have hlen := (hnodup.subperm hsub).length_le
  have htop := hr.top
  rw [List.length_range] at hlen
  rw [searchFuel]
  omega

/-- The list is a matter of the bytes and of {lit}`freep`. -/
theorem congr {h' : Heap} (hr : FreeRing h b e R) (hbytes : h'.bytes = h.bytes)
    (hfreep : h'.freep = h.freep) : FreeRing h' b e R := by
  have hnext : h'.next = h.next := by
    unfold Heap.next
    rw [hbytes]
  exact ⟨hnext ▸ hr.ring, hr.sorted, hfreep ▸ hr.freep, hr.spread, hr.below, hr.first, hr.top⟩

/-- The list after a store to the size at its end. -/
theorem setSize (hr : FreeRing h b e R) {v : Nat} (hv : v < 2 ^ 32) :
    FreeRing (h.setSize e v) b e R ∧
      (∀ x ∈ b :: R, (h.setSize e v).next x = h.next x) ∧
      (∀ x ∈ b :: R, x ≠ e → (h.setSize e v).size x = h.size x) ∧ (h.setSize e v).size e = v := by
  have hmem : e ∈ b :: R ++ [e] := by simp
  have hnext : ∀ x ∈ b :: R, (h.setSize e v).next x = h.next x := fun x hx =>
    Heap.next_setSize h hr.spread hmem (List.mem_append_left _ hx)
  refine ⟨⟨hr.ring.congr hnext, hr.sorted, hr.freep, hr.spread, hr.below, hr.first, hr.top⟩, hnext, fun x hx hne => ?_, ?_⟩
  · rw [Heap.size_setSize h hr.spread hmem (List.mem_append_left _ hx) hv,
      Function.update_of_ne hne]
  · rw [Heap.size_setSize h hr.spread hmem hmem hv, Function.update_self]

/-- The last node is followed by the sentinel and lies above the others. -/
theorem last (hr : FreeRing h b e R) (hlast : b :: R = A ++ [p]) :
    h.next p = b ∧ (∀ x ∈ A, x < p) ∧ Linked h.next (A ++ [p]) := by
  have hring := hr.ring
  have hsort := hr.sorted
  rw [hlast] at hring hsort
  have hnext := hring.next_eq
  refine ⟨?_, fun x hx => (List.pairwise_append.1 hsort).2.2 x hx p (by simp), ?_⟩
  · cases A with
    | nil =>
        obtain ⟨rfl, -⟩ := List.cons.inj hlast
        exact hnext b (by simp)
    | cons a A =>
        obtain ⟨rfl, -⟩ := List.cons.inj hlast
        exact hnext b (by simp)
  · have hlinked : Linked h.next (b :: R ++ [b]) := hr.ring
    rw [hlast] at hlinked
    exact List.IsChain.left_of_append hlinked

/-- What {lit}`kfree` does with a block at the end of the heap that is not in the list. -/
theorem kfree_end (hr : FreeRing h b e R) (hlast : b :: R = A ++ [p]) (hnew : e ∉ b :: R) :
    (h.kfree (e + 8)).freep = p ∧ (h.kfree (e + 8)).heapCurrent = h.heapCurrent ∧
      (∀ x ∈ A, (h.kfree (e + 8)).next x = h.next x ∧ (h.kfree (e + 8)).size x = h.size x) ∧
      (h.kfree (e + 8)).next e =
        (if Heap.headerAt e (h.size e) = b then h.next b else b) ∧
      (h.kfree (e + 8)).size e =
        (if Heap.headerAt e (h.size e) = b then u32 (h.size e + h.size b) else h.size e) ∧
      (h.kfree (e + 8)).next p =
        (if Heap.headerAt p (h.size p) = e then (h.kfree (e + 8)).next e else e) ∧
      (h.kfree (e + 8)).size p =
        (if Heap.headerAt p (h.size p) = e then u32 (h.size p + (h.kfree (e + 8)).size e)
          else h.size p) := by
  obtain ⟨hpb, hAp, -⟩ := hr.last hlast
  have hpmem : p ∈ b :: R := by
    rw [hlast]
    simp
  have hbest : ∀ y ∈ b :: R, y < e → y ≤ p := by
    intro y hy _
    rw [hlast, List.mem_append, List.mem_singleton] at hy
    rcases hy with hy | rfl
    · exact (hAp y hy).le
    · exact le_rfl
  have hne : ∀ x ∈ b :: R, x ≠ e := fun x hx heq => hnew (heq ▸ hx)
  have hpe : p < e := lt_of_le_of_ne (hr.below p hpmem) (hne p hpmem)
  have hseek := hr.ring.seek_insertion hr.sorted hr.first hnew hpmem hpe hbest hr.freep
    hr.length_le
  have htop := hr.top
  have hbp : u32 (e + 8 + 2 ^ 32 - 8) = e := by
    simp only [u32]
    omega
  have hkfree : h.kfree (e + 8) = { (h.coalesceUpper e p).coalesceLower e p with
      freep := p
      live := ((h.coalesceUpper e p).coalesceLower e p).live.filter fun c => c.1 ≠ e + 8 } := by
    simp only [Heap.kfree, hbp, hseek]
    rw [if_neg (by omega)]
  have hemem : e ∈ b :: R ++ [e] := by simp
  have hpmem' : p ∈ b :: R ++ [e] := List.mem_append_left _ hpmem
  have hbmem : h.next p ∈ b :: R ++ [e] := by
    rw [hpb]
    simp
  have hup := fun x hx => h.coalesceUpper_view hr.spread hemem hpmem' hbmem (b := x) hx
  have hlow := fun x hx => (h.coalesceUpper e p).coalesceLower_view hr.spread hemem hpmem'
    (by omega) (b := x) hx
  rw [hpb] at hup
  have hnext : (h.kfree (e + 8)).next = ((h.coalesceUpper e p).coalesceLower e p).next := by
    rw [hkfree]
    generalize (h.coalesceUpper e p).coalesceLower e p = h'
    rfl
  have hsize : (h.kfree (e + 8)).size = ((h.coalesceUpper e p).coalesceLower e p).size := by
    rw [hkfree]
    generalize (h.coalesceUpper e p).coalesceLower e p = h'
    rfl
  have hfreep : (h.kfree (e + 8)).freep = p := by rw [hkfree]
  have hcur : (h.kfree (e + 8)).heapCurrent = h.heapCurrent := by
    rw [hkfree]
    simp
  rw [hnext, hsize]
  -- The upper half changes the header of the block only.
  have hupe := hup e hemem
  have hupx : ∀ x ∈ b :: R, (h.coalesceUpper e p).next x = h.next x ∧
      (h.coalesceUpper e p).size x = h.size x := by
    intro x hx
    have hview := hup x (List.mem_append_left _ hx)
    rw [Function.update_of_ne (hne x hx), Function.update_of_ne (hne x hx), ite_self] at hview
    exact hview
  rw [Function.update_self, Function.update_self] at hupe
  have hlowe := hlow e hemem
  rw [Function.update_of_ne hpe.ne', Function.update_of_ne hpe.ne', ite_self] at hlowe
  have hlowp := hlow p hpmem'
  rw [Function.update_self, Function.update_self, (hupx p hpmem).2, ← hlowe.1, ← hlowe.2] at hlowp
  refine ⟨hfreep, hcur, fun x hx => ?_, hlowe.1.trans hupe.1, hlowe.2.trans hupe.2, hlowp.1,
    hlowp.2⟩
  · have hxR : x ∈ b :: R := by
      rw [hlast]
      exact List.mem_append_left _ hx
    have hview := hlow x (List.mem_append_left _ hxR)
    rw [Function.update_of_ne (hAp x hx).ne, Function.update_of_ne (hAp x hx).ne, ite_self] at hview
    exact ⟨hview.1.trans (hupx x hxR).1, hview.2.trans (hupx x hxR).2⟩

end FreeRing

/-! ## Requests whose growth wraps -/

/-- The header that {lit}`takeBlock` gives out. -/
theorem takeBlock_fst (h : Heap) (nunits q x : Nat) :
    (h.takeBlock nunits q x).1 =
      if h.size x = nunits then x else Heap.headerAt x (h.size x - nunits) := by
  have hsize := Heap.size_lt h x
  have hread : (h.setSize x (h.size x - nunits)).size x = h.size x - nunits :=
    ByteMemory.read32_write32_self _ (by omega)
  simp only [Heap.takeBlock, hread]
  split <;> rfl

/-- Cutting a block does not move the end of the heap. -/
theorem takeBlock_heapCurrent (h : Heap) (nunits q x : Nat) :
    (h.takeBlock nunits q x).2.heapCurrent = h.heapCurrent := by
  unfold Heap.takeBlock
  split <;> rfl

/-- A block that ends {lit}`m` bytes behind {lit}`e` gives out its last headers, which start at
or above {lit}`e`. -/
theorem finish_above {nunits q x e m : Nat} (nbytes : Nat) (hx : x + 8 * s.heap.size x = e + m)
    (hxe : x ≤ e) (hfit : 8 * nunits ≤ m) (hm : m < 8 * nunits + 4096) (he : e ≤ 0xC03FF000) :
    e < (s.finish nbytes nunits q x).1 ∧
      (s.finish nbytes nunits q x).2.heap.heapCurrent = s.heap.heapCurrent := by
  refine ⟨?_, takeBlock_heapCurrent s.heap nunits q x⟩
  change e < Heap.headerAt (s.heap.takeBlock nunits q x).1 1
  rw [takeBlock_fst]
  split
  · simp only [Heap.headerAt, u32]
    omega
  · simp only [Heap.headerAt, u32]
    omega

/-- {lit}`morecore` when the end of the growth wraps: the block it makes up is the node behind
the last one, or the last block has swallowed it. -/
theorem HeapOk.morecore_wraps (hok : HeapOk L s ts) {nunits : Nat} (hn : 8 * nunits ≤ 2 ^ 32 - 4096)
    (hwrap : 2 ^ 32 ≤ s.heap.heapCurrent + 4096 * corePages nunits) :
    ∃ K A p, L.base :: openAddrs ts = A ++ [p] ∧ s.morecore nunits = (p, ⟨s.mem, K⟩) ∧
      K.freep = p ∧ K.heapCurrent < s.heap.heapCurrent ∧
      (∀ x ∈ A, K.next x = s.heap.next x ∧ K.size x = s.heap.size x) ∧
      ((K.next p = s.heap.heapCurrent ∧ 8 * K.size s.heap.heapCurrent = 4096 * corePages nunits) ∨
        (p + 8 * K.size p = s.heap.heapCurrent + 4096 * corePages nunits ∧ p ≤ s.heap.heapCurrent ∧
          p ≠ L.base ∧ (K.next p = L.base ∨ K.next p = s.heap.next L.base))) := by
  have htop := hok.shape.top
  have hlo := hok.current_lo.1
  have hpages : 4096 * corePages nunits ≤ 2 ^ 32 - 4096 := by
    simp only [corePages] at hwrap ⊢
    omega
  obtain ⟨A, p, hlast⟩ := exists_lastBefore L ts
  have hring := hok.shape.freeRing
  generalize hcur : s.heap.heapCurrent = e at *
  have hsbrk := ksbrk_wraps hok.shape.heapMax (hcur ▸ htop) hpages (hcur ▸ hwrap)
  rw [← coreBytes_eq hn, hcur, coreBytes_eq hn] at hsbrk
  obtain ⟨c, hc⟩ : ∃ c, e + 4096 * corePages nunits = c + 2 ^ 32 := Nat.exists_eq_add_of_le' hwrap
  rw [hc, Nat.add_sub_cancel, ← coreBytes_eq hn] at hsbrk
  have hcore := morecore_of_ksbrk hsbrk (by omega)
  have hone : Heap.headerAt e 1 = e + 8 := by
    rw [Heap.headerAt, Heap.u32_of_lt (by omega)]
  rw [hone, coreBytes_eq hn] at hcore
  -- The list is the same while the end of the heap moves.
  have hmoved : FreeRing { s.heap with heapCurrent := c } L.base e
      (openAddrs ts) := hring.congr rfl rfl
  obtain ⟨hset, hsetNext, hsetSize, hsetEnd⟩ :=
    hmoved.setSize (v := 4096 * corePages nunits / 8) (by omega)
  have hcurrent : (Heap.setSize { s.heap with heapCurrent := c } e
      (4096 * corePages nunits / 8)).heapCurrent = c := rfl
  have hnot : ∀ x ∈ L.base :: openAddrs ts, x ≠ e := by
    intro x hx
    rcases List.mem_cons.1 hx with rfl | hx
    · exact hring.first.ne
    · exact (hcur ▸ hok.shape.tiled.openAddrs_bounds hx).2.ne
  simp only [Heap.next_current, Heap.size_current] at hcore hsetNext hsetSize
  generalize Heap.setSize { s.heap with heapCurrent := c } e
    (4096 * corePages nunits / 8) = G at *
  obtain ⟨hfreep, hkcur, hkA, hke, hkse, hkp, hksp⟩ := hset.kfree_end hlast fun hmem =>
    hnot e hmem rfl
  have hpmem : p ∈ L.base :: openAddrs ts := hlast.symm ▸ by simp
  have hAmem : ∀ x ∈ A, x ∈ L.base :: openAddrs ts := fun x hx => hlast.symm ▸ by simp [hx]
  have hbsize : G.size L.base = 0 :=
    (hsetSize _ List.mem_cons_self hring.first.ne).trans hok.shape.base_size
  -- The sentinel has size 0, so joining it adds nothing.
  have hsize : (G.kfree (e + 8)).size e = 4096 * corePages nunits / 8 := by
    rw [hkse, hbsize, hsetEnd, Nat.add_zero, Heap.u32_of_lt (by omega), ite_self]
  refine ⟨G.kfree (e + 8), A, p, hlast, by rw [hcore, hfreep], hfreep, by omega, fun x hx => ?_, ?_⟩
  · exact ⟨(hkA x hx).1.trans (hsetNext x (hAmem x hx)),
      (hkA x hx).2.trans (hsetSize x (hAmem x hx) (hnot x (hAmem x hx)))⟩
  · by_cases hjoin : Heap.headerAt p (G.size p) = e
    · rw [if_pos hjoin, hsize] at hksp
      rw [if_pos hjoin, hke, hsetNext L.base List.mem_cons_self] at hkp
      rw [hsetSize p hpmem (hnot p hpmem)] at hjoin hksp
      right
      rcases List.mem_cons.1 hpmem with rfl | hopen
      · have := L.base_hi
        have := L.image_hi
        rw [hok.shape.base_size, Heap.headerAt, Heap.u32_of_lt (by omega)] at hjoin
        exact absurd hring.first (by omega)
      · obtain ⟨t, ht, -, rfl⟩ := mem_openAddrs.1 hopen
        have hbounds := hok.shape.bounds ht
        rw [hok.shape.headerAt_size ht] at hjoin
        rw [Heap.u32_of_lt (by omega)] at hksp
        refine ⟨by omega, by omega, by omega, ?_⟩
        rw [hkp]
        split
        · exact .inr rfl
        · exact .inl rfl
    · rw [if_neg hjoin] at hkp
      exact .inl ⟨hkp, by omega⟩

/-- A request whose growth wraps is given memory above the end of the heap. -/
theorem HeapOk.search_wraps (hok : HeapOk L s ts) (nbytes : Nat) {nunits : Nat}
    (hsmall : ∀ x ∈ L.base :: openAddrs ts, s.heap.size x < nunits)
    (hn : 8 * nunits ≤ 2 ^ 32 - 4096)
    (hwrap : 2 ^ 32 ≤ s.heap.heapCurrent + 4096 * corePages nunits) :
    (Store.kmallocLoop nbytes nunits searchFuel s.heap.freep (s.heap.next s.heap.freep)
        s).2.heap.heapCurrent <
      (Store.kmallocLoop nbytes nunits searchFuel s.heap.freep (s.heap.next s.heap.freep) s).1 := by
  have hfuel : searchFuel = 2 ^ 32 := by rw [searchFuel]
  have htop := hok.shape.top
  have hpages : 8 * nunits ≤ 4096 * corePages nunits ∧
      4096 * corePages nunits < 8 * nunits + 4096 := by
    simp only [corePages] at hwrap ⊢
    omega
  rcases hok.shape.lap nbytes nunits (show 2 ^ 20 ≤ searchFuel by rw [hfuel]; norm_num) with
    ⟨q, hq, hfit, -⟩ | ⟨-, rest, hrest, hres⟩
  · have := hsmall _ (hok.shape.ring.next_mem hq)
    omega
  obtain ⟨K, A, p, hlast, hcore, hfreep, hcur, hkept, hcases⟩ := hok.morecore_wraps hn hwrap
  have hpmem : p ∈ L.base :: openAddrs ts := hlast.symm ▸ by simp
  have hp0 : p ≠ 0 := by
    have := L.base_lo
    have := hok.shape.sorted
    rcases List.mem_cons.1 hpmem with rfl | hopen
    · omega
    · have := (List.pairwise_cons.1 this).1 p hopen
      omega
  rw [hres, hcore]
  simp only [if_neg hp0]
  obtain ⟨rest, rfl⟩ : ∃ k, rest = k + 1 := ⟨rest - 1, by omega⟩
  rcases hcases with ⟨hnext, hsize⟩ | ⟨hsize, hpe, hpb, hnext⟩
  · -- The block made up is the first one the search meets.
    rw [hnext, kmallocLoop_fit (show nunits ≤ K.size s.heap.heapCurrent by omega)]
    have habove := finish_above (s := ⟨s.mem, K⟩) (q := p) nbytes
      (show s.heap.heapCurrent + 8 * K.size s.heap.heapCurrent = _ from
        congrArg (s.heap.heapCurrent + ·) hsize) le_rfl hpages.1 hpages.2 htop
    rw [habove.2]
    exact hcur.trans habove.1
  · -- The search comes back to the block that swallowed it.
    obtain ⟨l, hl, hlen, hlinked⟩ : ∃ l, (∀ x ∈ l, x ∈ A) ∧ l.length ≤ A.length ∧
        Linked K.next (p :: l ++ [p]) := by
      have hA : Linked K.next (A ++ [p]) :=
        (hok.shape.freeRing.last hlast).2.2.congr fun x hx => (hkept x hx).1
      cases A with
      | nil =>
          obtain ⟨hbp, -⟩ := List.cons.inj hlast
          exact absurd hbp.symm hpb
      | cons a A =>
          obtain ⟨rfl, -⟩ := List.cons.inj hlast
          rcases hnext with hnext | hnext
          · exact ⟨L.base :: A, fun x hx => hx, le_rfl, List.isChain_cons_cons.2 ⟨hnext, hA⟩⟩
          · obtain ⟨hhead, htail⟩ := List.isChain_cons.1 hA
            refine ⟨A, fun x hx => List.mem_cons_of_mem _ hx, by simp,
              List.isChain_cons.2 ⟨fun y hy => ?_, htail⟩⟩
            rw [hnext, ← (hkept L.base List.mem_cons_self).1]
            exact hhead y hy
    have hpl : p ∉ l := fun hmem =>
      lt_irrefl p ((hok.shape.freeRing.last hlast).2.1 p (hl p hmem))
    have hcount : l.length < rest + 1 := by
      have hle := hok.shape.length_le
      rw [hlast, List.length_append, List.length_singleton] at hle
      omega
    have hwalk := kmallocLoop_lap (s := ⟨s.mem, K⟩) nbytes nunits
      (show Linked K.next (p :: l ++ [K.freep]) from hfreep.symm ▸ hlinked)
      (hfreep.symm ▸ hpl) hcount
    simp only [hfreep] at hwalk
    rcases hwalk with ⟨q, hq, hfit, -, hres₁⟩ | ⟨hall, -⟩
    · have hqp : K.next q = p := by
        have hmem := hlinked.next_mem hq
        rcases List.mem_append.1 hmem with hmem | hmem
        · have hA := hl _ hmem
          have := hsmall (K.next q) (hlast.symm ▸ by simp [hA])
          rw [(hkept _ hA).2] at hfit
          omega
        · exact List.mem_singleton.1 hmem
      rw [hqp] at hres₁
      have habove := finish_above (s := ⟨s.mem, K⟩) (q := q) nbytes hsize hpe hpages.1 hpages.2 htop
      rw [hres₁, habove.2]
      exact hcur.trans habove.1
    · have := hall p (by simp)
      omega

/-! ## Requests whose rounding wraps -/

/-- The heap of a search for {lit}`nunits` headers that finds nothing and whose growth adds
nothing: every node is too small. -/
structure Stuck (s : Store) (b e nunits : Nat) (R : List Nat) : Prop where
  list : FreeRing s.heap b e R
  current : s.heap.heapCurrent = e
  heapMax : s.heap.heapMax = 0xC03FF000
  small : ∀ x ∈ b :: R, s.heap.size x < nunits
  nonzero : b ≠ 0

namespace Stuck

variable {b e nunits : Nat} {R : List Nat}

/-- {lit}`morecore` for no bytes releases an empty block at the end of the heap, and the heap
stays as it is or gets that block as a node.  When the node is there already, the search of
{lit}`kfree` does not end. -/
theorem morecore (hs : Stuck s b e nunits R) (hlo : 2 ^ 32 - 4096 < 8 * nunits)
    (hhi : nunits ≤ 2 ^ 29) :
    ∃ s' R', s.morecore nunits = (s'.heap.freep, s') ∧ Stuck s' b e nunits R' := by
  have htop := hs.list.top
  have hzero := coreBytes_eq_zero hlo hhi
  have hsbrk := ksbrk_zero hs.heapMax (hs.current ▸ htop)
  rw [hs.current] at hsbrk
  have hcore := morecore_of_ksbrk (hzero.symm ▸ hsbrk) (by omega)
  have hone : Heap.headerAt e 1 = e + 8 := by
    rw [Heap.headerAt, Heap.u32_of_lt (by omega)]
  rw [hone, hzero, Nat.zero_div] at hcore
  obtain ⟨hset, -, hsetSize, hsetEnd⟩ := hs.list.setSize (v := 0) (by norm_num)
  have hsmall : ∀ x ∈ b :: R, (s.heap.setSize e 0).size x < nunits := by
    intro x hx
    by_cases hxe : x = e
    · rw [hxe, hsetEnd]
      omega
    · rw [hsetSize x hx hxe]
      exact hs.small x hx
  have hcur : (s.heap.setSize e 0).heapCurrent = e := hs.current
  have hmax : (s.heap.setSize e 0).heapMax = 0xC03FF000 := hs.heapMax
  generalize s.heap.setSize e 0 = G at *
  by_cases hnode : e ∈ b :: R
  · -- The node is there already, and no place in the list fits it.
    have hseek := hset.ring.seek_none hset.freep
      (fun x hx => hset.ring.insertsAfter_of_mem hset.sorted hnode hx) searchFuel
    have hbp : u32 (e + 8 + 2 ^ 32 - 8) = e := by
      simp only [u32]
      omega
    have hkfree : G.kfree (e + 8) = { G with hung := true } := by
      simp only [Heap.kfree, hbp, hseek]
      rw [if_neg (by omega)]
    rw [hkfree] at hcore
    exact ⟨⟨s.mem, { G with hung := true }⟩, R, hcore, hset.congr rfl rfl, hcur, hmax, hsmall,
      hs.nonzero⟩
  · obtain ⟨A, p, hlast⟩ : ∃ A p, b :: R = A ++ [p] :=
      (List.eq_nil_or_concat' (b :: R)).resolve_left (List.cons_ne_nil b R)
    obtain ⟨hpb, hAp, -⟩ := hset.last hlast
    obtain ⟨hfreep, -, hkA, hke, hkse, hkp, hksp⟩ := hset.kfree_end hlast hnode
    have hcur' : (G.kfree (e + 8)).heapCurrent = e := by rw [kfree_heapCurrent, hcur]
    have hmax' : (G.kfree (e + 8)).heapMax = 0xC03FF000 := by rw [kfree_heapMax, hmax]
    generalize G.kfree (e + 8) = K at *
    have hfirst := hset.first
    have hup : Heap.headerAt e 0 ≠ b := by
      rw [Heap.headerAt, Heap.u32_of_lt (by omega)]
      omega
    rw [hsetEnd, if_neg hup] at hke hkse
    rw [hke] at hkp
    have hsize : K.size p = G.size p := by
      rw [hksp, hkse, Nat.add_zero, Heap.u32_of_lt (Heap.size_lt G p), ite_self]
    have hsmall' : ∀ x ∈ b :: R, K.size x < nunits := by
      intro x hx
      have hlt := hsmall x hx
      rw [hlast, List.mem_append, List.mem_singleton] at hx
      rcases hx with hx | rfl
      · rw [(hkA x hx).2]
        exact hlt
      · rw [hsize]
        exact hlt
    by_cases hjoin : Heap.headerAt p (G.size p) = e
    · -- The last block swallows the empty one, and nothing changes.
      rw [if_pos hjoin] at hkp
      refine ⟨⟨s.mem, K⟩, R, hcore, ⟨hset.ring.congr fun x hx => ?_, hset.sorted, ?_, hset.spread, hset.below,
        hset.first, hset.top⟩, hcur', hmax', hsmall', hs.nonzero⟩
      · rw [hlast, List.mem_append, List.mem_singleton] at hx
        rcases hx with hx | rfl
        · exact (hkA x hx).1
        · exact hkp.trans hpb.symm
      · change K.freep ∈ b :: R
        rw [hfreep, hlast]
        simp
    · -- The empty block becomes the last node.
      rw [if_neg hjoin] at hkp
      have hnodes : b :: (R ++ [e]) = A ++ p :: [e] := by
        rw [← List.cons_append, hlast, List.append_assoc]
        rfl
      have hmem : ∀ x, x ∈ b :: (R ++ [e]) ↔ x ∈ b :: R ++ [e] := fun x => by simp
      refine ⟨⟨s.mem, K⟩, R ++ [e], hcore, ⟨?_, ?_, ?_, ?_, fun x hx => ?_, hset.first, hset.top⟩, hcur', hmax',
        fun x hx => ?_, hs.nonzero⟩
      · rw [hnodes]
        refine IsRing.insert_after (hlast ▸ hset.ring) hkp (hke.trans hpb.symm) fun x hx => ?_
        rw [List.append_nil] at hx
        exact (hkA x hx).1
      · rw [← List.cons_append, List.pairwise_append]
        refine ⟨hset.sorted, List.pairwise_singleton _ _, fun x hx y hy => ?_⟩
        rw [List.mem_singleton.1 hy]
        exact lt_of_le_of_ne (hset.below x hx) fun heq => hnode (heq ▸ hx)
      · change K.freep ∈ _
        rw [hfreep, hnodes]
        simp
      · refine hset.spread.subset fun x hx => ?_
        simpa using hx
      · rcases List.mem_append.1 ((hmem x).1 hx) with hx | hx
        · exact hset.below x hx
        · exact (List.mem_singleton.1 hx).le
      · change K.size x < nunits
        rcases List.mem_append.1 ((hmem x).1 hx) with hx | hx
        · exact hsmall' x hx
        · rw [List.mem_singleton.1 hx, hkse]
          omega

/-- The search goes round the list for ever. -/
theorem hung (hs : Stuck s b e nunits R) (hlo : 2 ^ 32 - 4096 < 8 * nunits) (hhi : nunits ≤ 2 ^ 29)
    (nbytes fuel : Nat) {prevp : Nat} (hprev : prevp ∈ b :: R) :
    (Store.kmallocLoop nbytes nunits fuel prevp (s.heap.next prevp) s).2.heap.hung = true := by
  induction fuel generalizing s R prevp with
  | zero => rfl
  | succ fuel ih =>
      have hnode := hs.list.ring.next_mem hprev
      have hsmall := hs.small _ hnode
      rw [Store.kmallocLoop, if_neg (by omega)]
      by_cases hlap : s.heap.next prevp = s.heap.freep
      · obtain ⟨s', R', hcore, hs'⟩ := hs.morecore hlo hhi
        have hne : s'.heap.freep ≠ 0 := by
          rcases List.mem_cons.1 hs'.list.freep with heq | hmem
          · rw [heq]
            exact hs'.nonzero
          · have := (List.pairwise_cons.1 hs'.list.sorted).1 _ hmem
            omega
        rw [if_pos hlap]
        simp only [hcore, if_neg hne]
        exact ih hs' hs'.list.freep
      · rw [if_neg hlap]
        exact ih hs hnode

end Stuck

/-- A request whose rounding to pages wraps is never answered. -/
theorem HeapOk.search_hangs (hok : HeapOk L s ts) (nbytes : Nat) {nunits : Nat}
    (hsmall : ∀ x ∈ L.base :: openAddrs ts, s.heap.size x < nunits)
    (hlo : 2 ^ 32 - 4096 < 8 * nunits) (hhi : nunits ≤ 2 ^ 29) :
    (Store.kmallocLoop nbytes nunits searchFuel s.heap.freep (s.heap.next s.heap.freep)
      s).2.heap.hung = true := by
  have hbase := L.base_lo
  have hstuck : Stuck s L.base s.heap.heapCurrent nunits (openAddrs ts) :=
    ⟨hok.shape.freeRing, rfl, hok.shape.heapMax, hsmall, by omega⟩
  exact hstuck.hung hlo hhi nbytes searchFuel hok.shape.freep_mem

/-! ## Failed requests -/

/-- A growth beyond the end of the heap's room is refused at once. -/
theorem ksbrk_refused {k : Nat} (hmax : s.heap.heapMax = 0xC03FF000)
    (hroom : 0xC03FF000 < s.heap.heapCurrent + 4096 * k)
    (hend : s.heap.heapCurrent + 4096 * k < 2 ^ 32) (hk : 4096 * k ≤ 2 ^ 31) :
    s.ksbrk (4096 * k) = (0xFFFFFFFF, s) := by
  have hround : pageAlignUp (4096 * k) = 4096 * k := by
    simp only [pageAlignUp, u32]
    omega
  have hsum : u32 (s.heap.heapCurrent + 4096 * k) = s.heap.heapCurrent + 4096 * k :=
    Heap.u32_of_lt hend
  simp only [Store.ksbrk, hround, hsum, hmax]
  rw [if_pos (by omega)]

/-- The search for more than the whole heap has room for, while nothing wraps. -/
theorem HeapOk.search_refused (hok : HeapOk L s ts) (nbytes : Nat) {nunits : Nat}
    (hsmall : ∀ x ∈ L.base :: openAddrs ts, s.heap.size x < nunits)
    (hroom : 0xC03FF000 < s.heap.heapCurrent + 4096 * corePages nunits)
    (hend : s.heap.heapCurrent + 4096 * corePages nunits < 2 ^ 32) :
    Store.kmallocLoop nbytes nunits searchFuel s.heap.freep (s.heap.next s.heap.freep) s = (0, s) := by
  have hfuel : searchFuel = 2 ^ 32 := by rw [searchFuel]
  have hlo := hok.current_lo.1
  have hpages := (corePages_bounds nunits).2
  have hsbrk := ksbrk_refused hok.shape.heapMax hroom hend (by omega)
  rw [← coreBytes_eq (by omega)] at hsbrk
  have hcore : s.morecore nunits = (0, s) := by
    unfold coreBytes at hsbrk
    simp only [Store.morecore, hsbrk, if_true]
  rcases hok.shape.lap nbytes nunits (show 2 ^ 20 ≤ searchFuel by rw [hfuel]; norm_num) with
    ⟨q, hq, hfit, -⟩ | ⟨-, rest, -, hres⟩
  · have := hsmall _ (hok.shape.ring.next_mem hq)
    omega
  · rw [hres, hcore, if_pos rfl]

/-- No block has room for more than the whole heap. -/
theorem HeapOk.all_small (hok : HeapOk L s ts) {nunits : Nat} (hn : 0x2FF000 < 8 * nunits) :
    ∀ x ∈ L.base :: openAddrs ts, s.heap.size x < nunits := by
  intro x hx
  rcases List.mem_cons.1 hx with rfl | hopen
  · rw [hok.shape.base_size]
    omega
  · obtain ⟨t, ht, -, rfl⟩ := mem_openAddrs.1 hopen
    have hbounds := hok.shape.bounds ht
    have htile := hok.shape.tiled.bounds ht
    have hstart := L.heapStart_bounds.1
    have himage := L.image_lo
    omega

/-- The pointer to a block that has been found is not null. -/
theorem HeapOk.finish_ne_zero (hok : HeapOk L s ts) (nbytes : Nat) {nunits q : Nat}
    (hpos : 0 < nunits) (hq : q ∈ L.base :: openAddrs ts)
    (hfit : nunits ≤ s.heap.size (s.heap.next q)) :
    (s.finish nbytes nunits q (s.heap.next q)).1 ≠ 0 ∧
      ∃ t ∈ ts, t.owner = none ∧ 8 * nunits ≤ t.len := by
  obtain ⟨t, ht, hto, hta, hlen⟩ := hok.open_of_node hpos hq hfit
  refine ⟨?_, t, ht, hto, hlen⟩
  obtain ⟨pre, post, rfl⟩ := List.append_of_mem ht
  rw [← hta] at hfit ⊢
  obtain ⟨u, ts', hu, -, -, -, htaken⟩ := hok.shape.takeBlock hto hq hta.symm hpos hfit 0 []
  have hbounds := htaken.shape.bounds htaken.mem
  change Heap.headerAt (s.heap.takeBlock nunits q t.addr).1 1 ≠ 0
  rw [hu, Heap.headerAt, Heap.u32_of_lt (by omega)]
  omega

/-- Nothing that a failed request must leave alone has changed. -/
structure Unchanged (L : Layout) (s s' : Store) : Prop where
  bitmap : ∀ f, s'.mem.pfa.used f = s.mem.pfa.used f
  pages : s'.mem.kernelPageTable = s.mem.kernelPageTable
  current : s'.heap.heapCurrent = s.heap.heapCurrent
  free : s'.heap.freeBlocks L = s.heap.freeBlocks L

/-- A request runs out of frames in the middle: no free block fits, the growth it needs is
within the heap's room, and there are some free frames but too few. -/
def RunsOutMidway (L : Layout) (s : Store) (n : Nat) : Prop :=
  (∀ b ∈ s.heap.freeBlocks L, b.2 < unitsFor n) ∧
    s.heap.heapCurrent + 4096 * corePages (unitsFor n) ≤ 0xC03FF000 ∧
    0 < s.mem.pfa.freeCount ∧ s.mem.pfa.freeCount < corePages (unitsFor n)

/-- Growth without a free frame changes neither the bitmap nor the page table. -/
theorem MemGrown.of_freeCount_zero {m m' : Memory} {lo : Nat} (hg : MemGrown m m' lo)
    (hnone : m.pfa.freeCount = 0) :
    (∀ f, m'.pfa.used f = m.pfa.used f) ∧ m'.kernelPageTable = m.kernelPageTable := by
  have hfree := Pfa.freeCount_eq_zero.1 hnone
  refine ⟨fun f => ?_, funext fun i => ?_⟩
  · rw [Bool.eq_iff_iff]
    exact ⟨fun hf => (hg.takes f hf).resolve_right (hfree f), hg.keeps f⟩
  · rcases hg.maps i with hsame | ⟨-, -, f, hf, -⟩
    · exact hsame
    · exact absurd hf (hfree f)

/-- Every request runs the search, on the heap with its list. -/
theorem kmalloc_eq (L : Layout) (s : Store) {n : Nat} (hn : n ≠ 0) :
    s.kmalloc L n = Store.kmallocLoop n (unitsFor n) searchFuel (s.heap.prepared L).freep
      ((s.heap.prepared L).next (s.heap.prepared L).freep) ⟨s.mem, s.heap.prepared L⟩ := by
  rw [Store.kmalloc, if_neg hn]

/-- The first call of {lit}`kmalloc` changes nothing that a caller sees. -/
theorem HeapReady.unchanged_prepared (hr : HeapReady L s ts) :
    Unchanged L s ⟨s.mem, s.heap.prepared L⟩ :=
  ⟨fun _ => rfl, rfl, (prepared_frame L s.heap).1, hr.freeBlocks_prepared⟩

/-- A free block, seen from the tiling. -/
theorem HeapReady.small_iff (hr : HeapReady L s ts) (nunits : Nat) :
    (∀ b ∈ s.heap.freeBlocks L, b.2 < nunits) ↔
      ∀ t ∈ ts, t.owner = none → t.len < 8 * nunits := by
  have hok := hr.prepared
  rw [← hr.freeBlocks_prepared]
  constructor
  · intro h t ht hto
    have hunits := hok.shape.units t ht
    have := h (t.addr, (s.heap.prepared L).size t.addr)
      (hok.mem_freeBlocks.2 ⟨t, ht, hto, rfl, hunits.symm⟩)
    simp only at this hunits
    omega
  · intro h b hb
    obtain ⟨t, ht, hto, -, hlen⟩ := hok.mem_freeBlocks.1 hb
    have := h t ht hto
    omega

/-- A request for more than the heap has room for fails at once, is given memory above the end
of the heap, or is never answered. -/
theorem HeapReady.kmalloc_large (hr : HeapReady L s ts) {n : Nat} (hn : 0x3FF000 < 8 * unitsFor n)
    (hpos : n ≠ 0) :
    (s.heap.heapCurrent + 4096 * corePages (unitsFor n) < 2 ^ 32 ∧
        s.kmalloc L n = (0, ⟨s.mem, s.heap.prepared L⟩)) ∨
      (2 ^ 32 ≤ s.heap.heapCurrent + 4096 * corePages (unitsFor n) ∧
        ((s.kmalloc L n).2.heap.heapCurrent < (s.kmalloc L n).1 ∨
          (s.kmalloc L n).2.heap.hung = true)) := by
  have hok := hr.prepared
  have hsmall := hok.all_small (show 0x2FF000 < 8 * unitsFor n by omega)
  have hcur := (prepared_frame L s.heap).1
  have hlo := hok.current_lo.1
  have hpages := (corePages_bounds (unitsFor n)).2
  have hunits : unitsFor n ≤ 2 ^ 29 := by
    simp only [unitsFor, u32]
    omega
  simp only [hcur] at hlo
  rw [kmalloc_eq L s hpos]
  by_cases hend : s.heap.heapCurrent + 4096 * corePages (unitsFor n) < 2 ^ 32
  · refine .inl ⟨hend, hok.search_refused n hsmall ?_ ?_⟩
    · simp only [hcur]
      omega
    · simpa only [hcur] using hend
  · refine .inr ⟨by omega, ?_⟩
    by_cases hround : 8 * unitsFor n ≤ 2 ^ 32 - 4096
    · refine .inl (hok.search_wraps n hsmall hround ?_)
      simp only [hcur]
      omega
    · exact .inr (hok.search_hangs n hsmall (by omega) hunits)

/-- A request that runs out of frames in the middle fails and keeps the frames it got. -/
theorem RunsOutMidway.not_unchanged {n : Nat} (hmid : RunsOutMidway L s n) (hr : HeapReady L s ts)
    (hpos : n ≠ 0) :
    (s.kmalloc L n).1 = 0 ∧ (s.kmalloc L n).2.heap.hung = false ∧
      ¬ Unchanged L s (s.kmalloc L n).2 := by
  obtain ⟨hblocks, hroom, hsome, hfew⟩ := hmid
  have hcur := (prepared_frame L s.heap).1
  have hok := hr.prepared
  have hlo := hok.current_lo.1
  have hpages := (corePages_bounds (unitsFor n)).2
  simp only [hcur] at hlo
  have hsearch := hok.search n (show unitsFor n ≤ 2 ^ 20 by omega)
  rw [← kmalloc_eq L s hpos] at hsearch
  generalize s.kmalloc L n = r at hsearch
  cases hsearch with
  | found hq hfit =>
      have hone : 0 < unitsFor n := Nat.succ_pos _
      obtain ⟨-, t, ht, hto, hlen⟩ := hok.finish_ne_zero n hone hq hfit
      have := (hr.small_iff _).1 hblocks t ht hto
      omega
  | grown hgrown hq hfit hnone =>
      have hcount := (hok.grown hgrown).2.2.2.2
      simp only at hcount
      omega
  | failed hmem hkept hwhy hnone =>
      refine ⟨rfl, (hok.kept hmem hkept).shape.hung, fun hsame => ?_⟩
      rcases hwhy with ⟨hfull, -⟩ | ⟨-, -, hspent, -⟩
      · simp only [hcur] at hfull
        omega
      · -- Every frame is taken, so the bitmap has changed.
        have hcount := Pfa.freeCount_congr hmem.startFrame hmem.totalFrames hsame.bitmap
        simp only at hcount
        omega

/-- Every other failed request changes nothing. -/
theorem HeapReady.unchanged (hr : HeapReady L s ts) {n : Nat} (hmid : ¬ RunsOutMidway L s n)
    (hptr : (s.kmalloc L n).1 = 0) (hhung : (s.kmalloc L n).2.heap.hung = false) :
    Unchanged L s (s.kmalloc L n).2 := by
  have hcur := (prepared_frame L s.heap).1
  have hok := hr.prepared
  by_cases hzero : n = 0
  · subst hzero
    exact ⟨fun _ => rfl, rfl, rfl, rfl⟩
  by_cases hlarge : 0x3FF000 < 8 * unitsFor n
  · rcases hr.kmalloc_large hlarge hzero with ⟨-, hrun⟩ | ⟨-, habove | hloop⟩
    · rw [hrun]
      exact hr.unchanged_prepared
    · omega
    · rw [hloop] at hhung
      cases hhung
  have hsearch := hok.search n (show unitsFor n ≤ 2 ^ 20 by omega)
  have hpos : 0 < unitsFor n := Nat.succ_pos _
  rw [← kmalloc_eq L s hzero] at hsearch
  generalize s.kmalloc L n = r at hsearch hptr hhung
  cases hsearch with
  | found hq hfit => exact absurd hptr (hok.finish_ne_zero n hpos hq hfit).1
  | grown hgrown hq hfit hnone =>
      exact absurd hptr ((hok.grown hgrown).1.finish_ne_zero n hpos hq hfit).1
  | @failed s' hmem hkept hwhy hnone =>
      rcases hwhy with ⟨-, rfl⟩ | ⟨hroom, hshort, -⟩
      · exact hr.unchanged_prepared
      · -- There was no free frame to begin with.
        have hnone' : s.mem.pfa.freeCount = 0 := by
          by_contra hsome
          refine hmid ⟨(hr.small_iff _).2 hnone, ?_, Nat.pos_of_ne_zero hsome, hshort⟩
          simpa only [hcur] using hroom
        obtain ⟨hbits, hpages⟩ := hmem.of_freeCount_zero hnone'
        refine ⟨hbits, hpages, hkept.heapCurrent.trans hcur, ?_⟩
        change s'.heap.freeBlocks L = s.heap.freeBlocks L
        rw [(hok.kept hmem hkept).freeBlocks_eq, ← hr.freeBlocks_prepared, hok.freeBlocks_eq]

/-- A failed request changes nothing exactly when it does not run out of frames in the
middle. -/
theorem kmalloc_failure_atomic_iff (hr : HeapReady L s ts) (n : Nat) :
    ((s.kmalloc L n).1 = 0 → (s.kmalloc L n).2.heap.hung = false →
        Unchanged L s (s.kmalloc L n).2) ↔ ¬ RunsOutMidway L s n := by
  constructor
  · intro hatomic hmid
    have hpos : n ≠ 0 := by
      rintro rfl
      have hone : corePages (unitsFor 0) = 1 := by decide
      have := hmid.2.2
      omega
    obtain ⟨hptr, hhung, hchanged⟩ := hmid.not_unchanged hr hpos
    exact hchanged (hatomic hptr hhung)
  · intro hmid hptr hhung
    exact hr.unchanged hmid hptr hhung

/-- A request for 4 MB, for which the sample heap has no addresses. -/
theorem kmalloc_failure_atomic_refused :
    HeapReady sampleLayout sampleStore [] ∧
      (sampleStore.kmalloc sampleLayout 0x400000).1 = 0 ∧
      Unchanged sampleLayout sampleStore (sampleStore.kmalloc sampleLayout 0x400000).2 := by
  have hr : HeapReady sampleLayout sampleStore [] := .inr ⟨sampleStore_fresh, rfl⟩
  have hunits : unitsFor 0x400000 = 0x80001 := by decide
  have hpages : corePages (unitsFor 0x400000) = 0x401 := by decide
  have hstart : sampleLayout.heapStart = 0xC0200000 := by decide
  have hcurrent : sampleStore.heap.heapCurrent = 0xC0200000 :=
    sampleStore_fresh.current.trans hstart
  have hmid : ¬ RunsOutMidway sampleLayout sampleStore 0x400000 := by
    rintro ⟨-, hroom, -⟩
    omega
  rcases hr.kmalloc_large (n := 0x400000) (by omega) (by norm_num) with ⟨-, hrun⟩ | ⟨hend, -⟩
  · have hptr : (sampleStore.kmalloc sampleLayout 0x400000).1 = 0 := by rw [hrun]
    have hhung : (sampleStore.kmalloc sampleLayout 0x400000).2.heap.hung = false := by
      rw [hrun]
      rfl
    exact ⟨hr, hptr, (kmalloc_failure_atomic_iff hr 0x400000).2 hmid hptr hhung⟩
  · omega

/-- The sample heap when one frame is free. -/
def scarceStore : Store :=
  { sampleStore with mem := { sampleStore.mem with
      pfa := ⟨Bitmap.clear (fun _ => 0xFF) 1025, 1025, 16384, false⟩ } }

theorem scarceStore_fresh : HeapFresh sampleLayout scarceStore :=
  ⟨rfl, rfl, rfl, rfl, rfl, by decide, by decide⟩

theorem scarceStore_frames : scarceStore.mem.pfa.freeCount = 1 := by
  have hused : ∀ f, scarceStore.mem.pfa.used f = !decide (1025 = f) := by
    intro f
    change Bitmap.test (Bitmap.clear (fun _ => 0xFF) 1025) f = _
    rw [Bitmap.test_clear, Bitmap.test_full, Bool.true_and]
  rw [Pfa.freeCount, Finset.card_eq_one]
  refine ⟨1025, Finset.ext fun f => ?_⟩
  rw [Finset.mem_filter, Finset.mem_Ico, Finset.mem_singleton, hused]
  change (1025 ≤ f ∧ f < 16384) ∧ _ ↔ _
  simp only [Bool.not_eq_eq_eq_not, Bool.not_false, decide_eq_true_eq]
  omega

/-- A kernel stack needs two pages.  With one frame left the request fails and the frame stays
taken. -/
theorem kmalloc_keeps_frame :
    HeapReady sampleLayout scarceStore [] ∧ (scarceStore.kmalloc sampleLayout 4096).1 = 0 ∧
      ¬ Unchanged sampleLayout scarceStore (scarceStore.kmalloc sampleLayout 4096).2 := by
  have hr : HeapReady sampleLayout scarceStore [] := .inr ⟨scarceStore_fresh, rfl⟩
  have htwo : corePages (unitsFor 4096) = 2 := by decide
  have hstart : sampleLayout.heapStart = 0xC0200000 := by decide
  have hmid : RunsOutMidway sampleLayout scarceStore 4096 := by
    refine ⟨?_, ?_, ?_, ?_⟩
    · rw [scarceStore_fresh.freeBlocks]
      simp
    · rw [htwo, scarceStore_fresh.current, hstart]
      norm_num
    · rw [scarceStore_frames]
      norm_num
    · rw [scarceStore_frames, htwo]
      norm_num
  obtain ⟨hptr, -, hchanged⟩ := hmid.not_unchanged hr (by norm_num)
  exact ⟨hr, hptr, hchanged⟩

/-! ## What a request takes -/

/-- The pages by which the heap grows for a request of {lit}`n` bytes. -/
def Heap.growthFor (h : Heap) (L : Layout) (n : Nat) : Nat :=
  if ∃ b ∈ h.freeBlocks L, unitsFor n ≤ b.2 then 0 else corePages (unitsFor n)

/-- The same for a request of {lit}`n'` bytes that follows one of {lit}`n` bytes: the block that
serves the first one is shorter then. -/
def Heap.growthAfter (h : Heap) (L : Layout) (n n' : Nat) : Nat :=
  if ∃ b ∈ h.freeBlocks L,
      unitsFor n' + (if h.fitting (unitsFor n) = some b.1 then unitsFor n else 0) ≤ b.2 then 0
  else corePages (unitsFor n')

/-- The heap, with {lit}`frames` free frames, cannot grow by {lit}`pages` pages. -/
def CannotGrow (current frames pages : Nat) : Prop :=
  0 < pages ∧ (0xC03FF000 < current + 4096 * pages ∨ frames < pages)

/-- A tile fits when a block of the free list does. -/
theorem HeapReady.openFits_iff (hr : HeapReady L s ts) (nunits : Nat) :
    OpenFits ts (8 * nunits) ↔ ∃ b ∈ s.heap.freeBlocks L, nunits ≤ b.2 := by
  have hsmall := (hr.small_iff nunits).symm
  rw [← not_openFits] at hsmall
  rw [← not_iff_not, hsmall]
  simp only [not_exists, not_and, not_le]

/-- A tile fits beside another request when a block of the free list does. -/
theorem HeapReady.openFitsBeside_iff (hr : HeapReady L s ts) (p k nunits : Nat) :
    OpenFitsBeside ts p (8 * k) (8 * nunits) ↔
      ∃ b ∈ s.heap.freeBlocks L, nunits + (if p = b.1 then k else 0) ≤ b.2 := by
  have hok := hr.prepared
  rw [← hr.freeBlocks_prepared]
  constructor
  · rintro ⟨t, ht, hto, hlen⟩
    have hunits := hok.shape.units t ht
    refine ⟨(t.addr, (s.heap.prepared L).size t.addr),
      hok.mem_freeBlocks.2 ⟨t, ht, hto, rfl, hunits.symm⟩, ?_⟩
    simp only at hunits ⊢
    by_cases hp : t.addr = p
    · rw [if_pos hp] at hlen
      rw [if_pos hp.symm]
      omega
    · rw [if_neg hp] at hlen
      rw [if_neg (Ne.symm hp)]
      omega
  · rintro ⟨b, hb, hlen⟩
    obtain ⟨t, ht, hto, haddr, hunits⟩ := hok.mem_freeBlocks.1 hb
    refine ⟨t, ht, hto, ?_⟩
    rw [haddr]
    by_cases hp : b.1 = p
    · rw [if_pos hp.symm] at hlen
      rw [if_pos hp]
      omega
    · rw [if_neg (Ne.symm hp)] at hlen
      rw [if_neg hp]
      omega

/-- A request fails exactly when the heap cannot grow by the pages that it needs, and else the
heap grows by them. -/
theorem HeapReady.kmalloc_growth (hr : HeapReady L s ts) {n : Nat} (hpos : 1 ≤ n)
    (hn : n ≤ 0x3FF000) :
    ((s.kmalloc L n).1 = 0 ∧
        CannotGrow s.heap.heapCurrent s.mem.pfa.freeCount (s.heap.growthFor L n)) ∨
      ((s.kmalloc L n).1 ≠ 0 ∧
        ¬ CannotGrow s.heap.heapCurrent s.mem.pfa.freeCount (s.heap.growthFor L n) ∧
        (s.kmalloc L n).2.heap.heapCurrent = s.heap.heapCurrent + 4096 * s.heap.growthFor L n) := by
  have hspec := kmalloc_spec hr hpos hn
  have hcur := (prepared_frame L s.heap).1
  have hpages := corePages_bounds (unitsFor n)
  have hfits := hr.openFits_iff (unitsFor n)
  generalize s.kmalloc L n = r at hspec ⊢
  cases hspec with
  | block halloc hmem hcount hbounds hgot =>
      have htop := halloc.ok.shape.top
      simp only [hcur] at hcount
      refine .inr ⟨halloc.ptr_ne, ?_⟩
      cases hgot with
      | fitting hsame hfit =>
          have hzero : s.heap.growthFor L n = 0 := if_pos (hfits.1 hfit)
          rw [hzero]
          exact ⟨fun hcannot => lt_irrefl 0 hcannot.1, hsame.trans hcur⟩
      | grown hend hnone =>
          have hgrow : s.heap.growthFor L n = corePages (unitsFor n) :=
            if_neg fun hex => hnone (hfits.2 hex)
          simp only [hcur] at hend
          rw [hgrow]
          refine ⟨fun hcannot => ?_, hend⟩
          have := hcannot.2
          omega
  | fail hok hmem hkept hwhy hnone =>
      have hgrow : s.heap.growthFor L n = corePages (unitsFor n) :=
        if_neg fun hex => not_openFits.2 hnone (hfits.2 hex)
      have hwhy' := hwhy.why
      simp only [hcur] at hwhy'
      refine .inl ⟨rfl, ?_⟩
      rw [hgrow]
      exact ⟨hpages.1, hwhy'⟩

/-- What a larger request needs after one that was met is known beforehand. -/
theorem HeapReady.growthFor_kmalloc (hr : HeapReady L s ts) {n n' : Nat} (hpos : 1 ≤ n)
    (hn : n ≤ 0x3FF000) (hlarge : 4096 * corePages (unitsFor n) ≤ 8 * unitsFor n')
    (hmet : (s.kmalloc L n).1 ≠ 0) :
    (s.kmalloc L n).2.heap.growthFor L n' = s.heap.growthAfter L n n' := by
  have hspec := kmalloc_spec hr hpos hn
  have hpages := corePages_bounds (unitsFor n)
  have hfits := hr.openFits_iff (unitsFor n)
  generalize s.kmalloc L n = r at hspec hmet ⊢
  cases hspec with
  | block halloc hmem hcount hbounds hgot =>
      have hafter := HeapReady.openFits_iff (.inl halloc.ok) (unitsFor n')
      rw [Heap.growthFor, Heap.growthAfter]
      cases hgot with
      | fitting hsame hfit hfirst hleft =>
          -- There is a free block, so this is not the first call.
          have hprep : s.heap.prepared L = s.heap := by
            rcases hr with hok | ⟨hf, rfl⟩
            · rw [Heap.prepared, if_neg hok.freep_ne]
            · obtain ⟨t, ht, -⟩ := hfit
              cases ht
          simp only [hprep] at hfirst
          simp only [hfirst, Option.some.injEq, ← hafter, hleft (8 * unitsFor n') (by omega),
            hr.openFitsBeside_iff]
      | grown hend hnone hleft =>
          rw [if_neg, if_neg]
          · rintro ⟨b, hb, hle⟩
            exact hnone (hfits.2 ⟨b, hb, by omega⟩)
          · rw [← hafter]
            rintro ⟨t, ht, hto, hle⟩
            exact hleft ⟨t, ht, hto, by omega⟩
  | fail => exact absurd rfl hmet

/-! ## Requests that are met or refused -/

/-- A request ends, and it returns null or a pointer to that many bytes inside the heap, on
mapped pages below the temporary window. -/
def RequestMet (L : Layout) (s : Store) (n : Nat) : Prop :=
  (s.kmalloc L n).2.heap.hung = false ∧
    ((s.kmalloc L n).1 = 0 ∨
      ((s.kmalloc L n).1 + n ≤ 2 ^ 32 ∧ L.heapStart ≤ (s.kmalloc L n).1 ∧
        (s.kmalloc L n).1 + n ≤ (s.kmalloc L n).2.heap.heapCurrent ∧
        (s.kmalloc L n).2.heap.heapCurrent ≤ 0xC03FF000 ∧
        ∀ v, (s.kmalloc L n).1 ≤ v → v < (s.kmalloc L n).1 + n →
          present ((s.kmalloc L n).2.mem.kernelPageTable (pageIndex v)) = true))

/-- Requests of up to {lit}`0x3FF000` bytes are met or refused. -/
theorem HeapReady.request_met (hr : HeapReady L s ts) {n : Nat} (hpos : 1 ≤ n)
    (hn : n ≤ 0x3FF000) : RequestMet L s n := by
  have hspec := kmalloc_spec hr hpos hn
  unfold RequestMet
  generalize s.kmalloc L n = r at hspec
  cases hspec with
  | @block ptr s' ts' u halloc =>
      have hroom := halloc.ok.room u halloc.mem n halloc.owner
      have hbounds := halloc.ok.shape.tiled.bounds halloc.mem
      have htop := halloc.ok.shape.top
      have hptr := halloc.ptr_eq
      refine ⟨halloc.ok.shape.hung, .inr ⟨by omega, by omega, by simp only; omega, htop,
        fun v hlo hhi => ?_⟩⟩
      exact (halloc.ok.safe.mapped v (by omega) (by simp only at hhi; omega)).2
  | fail hok => exact ⟨hok.shape.hung, .inl rfl⟩

/-- The last seven sizes are asked for as one header. -/
theorem HeapReady.request_met_last (hr : HeapReady L s ts) {n : Nat} (hlast : 2 ^ 32 - 8 < n)
    (hn : n < 2 ^ 32) :
    RequestMet L s n ↔ s.heap.freeBlocks L = [] ∧
      (s.heap.heapCurrent = 0xC03FF000 ∨ s.mem.pfa.freeCount = 0) := by
  have hcur := (prepared_frame L s.heap).1
  have hok := hr.prepared
  have htop := hok.shape.top
  simp only [hcur] at htop
  have hone := unitsFor_of_gt hlast hn
  have hpages : corePages 1 = 1 := by decide
  have hsmall := hr.small_iff 1
  have hsearch := hok.search n (show 1 ≤ 2 ^ 20 by norm_num)
  have hzero : n ≠ 0 := by omega
  have hrun := kmalloc_eq L s hzero
  rw [hone] at hrun
  rw [← hrun] at hsearch
  -- A pointer to this many bytes would have to lie below 0.
  have hptr : (s.kmalloc L n).1 ≠ 0 → ¬ RequestMet L s n := by
    rintro hne ⟨-, hnull | ⟨-, -, hend, hbelow, -⟩⟩
    · exact hne hnull
    · omega
  have hmet : (s.kmalloc L n).1 = 0 → (s.kmalloc L n).2.heap.hung = false → RequestMet L s n :=
    fun hnull hhung => ⟨hhung, .inl hnull⟩
  generalize s.kmalloc L n = r at hsearch hptr hmet
  cases hsearch with
  | found hq hfit =>
      obtain ⟨hne, t, ht, hto, hlen⟩ := hok.finish_ne_zero n Nat.one_pos hq hfit
      refine iff_of_false (hptr hne) ?_
      rintro ⟨hempty, -⟩
      have := hsmall.1 (by simp [hempty]) t ht hto
      omega
  | grown hgrown hq hfit hnone =>
      obtain ⟨hok₁, -, -, -, hcount⟩ := hok.grown hgrown
      refine iff_of_false (hptr (hok₁.finish_ne_zero n Nat.one_pos hq hfit).1) ?_
      have hfits := hgrown.fits
      simp only [hcur, hpages] at hfits hcount
      rintro ⟨-, hfull | hnone'⟩
      · omega
      · omega
  | failed hmem hkept hwhy hnone =>
      refine iff_of_true (hmet rfl (hok.kept hmem hkept).shape.hung) ⟨?_, ?_⟩
      · refine List.eq_nil_iff_forall_not_mem.2 fun b hb => ?_
        have hlt := hsmall.2 hnone b hb
        rw [← hr.freeBlocks_prepared] at hb
        obtain ⟨t, ht, -, -, hlen⟩ := hok.mem_freeBlocks.1 hb
        have := (hok.shape.bounds ht).2.1
        omega
      · have halign := hok.aligned
        have hshort := hwhy.why
        simp only [hcur, hpages] at halign hshort
        omega

/-- A request is met or refused exactly when nothing wraps in its arithmetic, or when it is one
of the last seven sizes, there is no free block and the heap cannot grow by a page. -/
theorem request_met_iff (hr : HeapReady L s ts) {n : Nat} (hpos : 1 ≤ n) (hn : n < 2 ^ 32) :
    RequestMet L s n ↔
      (n ≤ 2 ^ 32 - 8 ∧ s.heap.heapCurrent + 4096 * corePages (unitsFor n) < 2 ^ 32) ∨
      (2 ^ 32 - 8 < n ∧ s.heap.freeBlocks L = [] ∧
        (s.heap.heapCurrent = 0xC03FF000 ∨ s.mem.pfa.freeCount = 0)) := by
  have hcur := (prepared_frame L s.heap).1
  have hok := hr.prepared
  have htop := hok.shape.top
  simp only [hcur] at htop
  by_cases hadmitted : n ≤ 0x3FF000
  · refine iff_of_true (hr.request_met hpos hadmitted) (.inl ⟨by omega, ?_⟩)
    have hunits := unitsFor_of_le (show n ≤ 2 ^ 32 - 8 by omega)
    simp only [corePages]
    omega
  by_cases hlast : n ≤ 2 ^ 32 - 8
  · have hunits := unitsFor_of_le hlast
    rcases hr.kmalloc_large (n := n) (by omega) (by omega) with ⟨hend, hrun⟩ | ⟨hwrap, hbad⟩
    · refine iff_of_true ?_ (.inl ⟨hlast, hend⟩)
      rw [RequestMet, hrun]
      exact ⟨hok.shape.hung, .inl rfl⟩
    · refine iff_of_false ?_ (by omega)
      rintro ⟨hhung, hres⟩
      rcases hbad with habove | hloop
      · omega
      · rw [hloop] at hhung
        cases hhung
  · rw [hr.request_met_last (by omega) hn]
    constructor
    · exact fun h => .inr ⟨by omega, h⟩
    · rintro (⟨hle, -⟩ | ⟨-, h⟩)
      · exact absurd hle hlast
      · exact h

/-- A request of 84 bytes on the sample heap. -/
theorem request_met_fresh :
    RequestMet sampleLayout sampleStore 84 ↔
      (84 ≤ 2 ^ 32 - 8 ∧
        sampleStore.heap.heapCurrent + 4096 * corePages (unitsFor 84) < 2 ^ 32) ∨
      (2 ^ 32 - 8 < 84 ∧ sampleStore.heap.freeBlocks sampleLayout = [] ∧
        (sampleStore.heap.heapCurrent = 0xC03FF000 ∨ sampleStore.mem.pfa.freeCount = 0)) :=
  request_met_iff (.inr ⟨sampleStore_fresh, rfl⟩) (by norm_num) (by norm_num)

/-- A request for all bytes but one is answered with a pointer to a block of one header. -/
theorem request_not_met_last_size :
    HeapReady sampleLayout sampleStore [] ∧ ¬ RequestMet sampleLayout sampleStore 0xFFFFFFFF := by
  have hr : HeapReady sampleLayout sampleStore [] := .inr ⟨sampleStore_fresh, rfl⟩
  refine ⟨hr, fun hmet => ?_⟩
  obtain ⟨-, hfull | hnone⟩ := (hr.request_met_last (by norm_num) (by norm_num)).1 hmet
  · have hstart : sampleLayout.heapStart = 0xC0200000 := by decide
    rw [sampleStore_fresh.current, hstart] at hfull
    omega
  · have := sampleStore_frames
    omega

end SoKernel
