import SoKernel.Memory.HeapInvariant

/-!
# Heap allocation

This module shows that {lit}`kmalloc` keeps the heap invariant: the walk over the
free list, the exact fit and the split of a larger block, and the growth through
{lit}`morecore` when a whole lap finds nothing.

Main results:

- Theorem {lit}`HeapShape.takeBlock`: taking a fitting block gives the tiling in
  which it is owned.
- Theorem {lit}`HeapShape.morecore`: growth appends a block and releases it.
- Theorem {lit}`kmalloc_spec`: what one call of {lit}`kmalloc` can do.
-/

namespace SoKernel

/-! ## Taking a block -/

section TakeBlock

variable {L : Layout} {h : Heap} {pre post : List (Tile Nat)} {t : Tile Nat} {nunits prevp : Nat}

/-- What taking a block out of the tiling {lit}`pre ++ t :: post` leaves behind. -/
structure Taken (L : Layout) (h h' : Heap) (pre post : List (Tile Nat)) (u : Tile Nat)
    (ts' : List (Tile Nat)) : Prop where
  shape : HeapShape L h' ts'
  mem : u ∈ ts'
  owned : ownedTiles ts' = ownedTiles pre ++ u :: ownedTiles post
  same : h.SameOutside h' (headers L ts')
  current : h'.heapCurrent = h.heapCurrent

/-- The live blocks of a tiling in two parts. -/
theorem ownedTiles_append (ts us : List (Tile Nat)) :
    ownedTiles (ts ++ us) = ownedTiles ts ++ ownedTiles us :=
  List.filter_append ..

/-- A tile with an owner in the place of another keeps free tiles apart. -/
theorem coalesced_owned {u : Tile Nat} (hc : Coalesced (pre ++ t :: post)) (hu : u.owner.isSome) :
    Coalesced (pre ++ u :: post) := by
  obtain ⟨hpre, hpost⟩ : Coalesced (pre ++ [t]) ∧ Coalesced (t :: post) := List.isChain_split.1 hc
  have hpre' : Coalesced pre := List.IsChain.left_of_append hpre
  have hpost' : Coalesced post := (List.isChain_cons.1 hpost).2
  refine List.isChain_split.2 ⟨List.isChain_append.2 ⟨hpre', List.isChain_singleton _, ?_⟩,
    List.isChain_cons.2 ⟨fun _ _ => .inl hu, hpost'⟩⟩
  intro x _ y hy
  obtain rfl : y = u := by simpa [eq_comm] using hy
  exact .inr hu

/-- The predecessor of an open block in the free list is the last node before it. -/
theorem HeapShape.prev_eq (hs : HeapShape L h (pre ++ t :: post)) (ht : t.owner = none)
    (hprev : prevp ∈ L.base :: openAddrs (pre ++ t :: post)) (hnext : h.next prevp = t.addr) :
    ∃ A, LastBefore L pre A prevp ∧ IsRing h.next (A ++ prevp :: t.addr :: openAddrs post) := by
  obtain ⟨A, p, hp⟩ := exists_lastBefore L pre
  have hlist : L.base :: openAddrs (pre ++ t :: post) = A ++ p :: t.addr :: openAddrs post := by
    rw [openAddrs_append, openAddrs_cons_open ht, ← List.cons_append, hp]
    simp
  have hring := hs.ring
  rw [hlist] at hring
  have hpn : h.next p = t.addr := hring.next_eq t.addr (by simp)
  have hpmem : p ∈ L.base :: openAddrs (pre ++ t :: post) := by
    rw [hlist]
    simp
  obtain rfl : prevp = p :=
    hs.ring.next_injective hs.nodup hprev hpmem (hnext.trans hpn.symm)
  exact ⟨A, hp, hring⟩

/-- A block of exactly the right size leaves the free list. -/
theorem HeapShape.takeBlock_exact (hs : HeapShape L h (pre ++ t :: post)) (ht : t.owner = none)
    (hprev : prevp ∈ L.base :: openAddrs (pre ++ t :: post)) (hnext : h.next prevp = t.addr)
    (n : Nat) (lv : List (Nat × Nat)) :
    Taken L h { h.setNext prevp (h.next t.addr) with freep := prevp, live := lv } pre post
      ⟨t.addr, t.len, some n⟩ (pre ++ ⟨t.addr, t.len, some n⟩ :: post) := by
  obtain ⟨A, hlast, hring⟩ := hs.prev_eq ht hprev hnext
  have hheaders : headers L (pre ++ ⟨t.addr, t.len, some n⟩ :: post) = headers L (pre ++ t :: post) := by
    simp [headers]
  have hpmem := HeapShape.ring_subset _ hprev
  have hsize : ∀ x ∈ headers L (pre ++ t :: post),
      (h.setNext prevp (h.next t.addr)).size x = h.size x :=
    fun x hx => Heap.size_setNext h hs.spread hpmem hx
  have hlist : L.base :: openAddrs (pre ++ t :: post) = A ++ prevp :: t.addr :: openAddrs post := by
    rw [openAddrs_append, openAddrs_cons_open ht, ← List.cons_append, hlast]
    simp
  have hlist' : L.base :: openAddrs (pre ++ ⟨t.addr, t.len, some n⟩ :: post) =
      A ++ prevp :: openAddrs post := by
    rw [openAddrs_append, openAddrs_cons_owned (o := n) rfl, ← List.cons_append, hlast]
    simp
  have hnodup := hs.nodup
  rw [hlist] at hnodup
  refine ⟨⟨hs.tiled.relabel _, fun x hx => ?_, ?_, ?_, ?_, coalesced_owned hs.coalesced rfl, hs.top,
    hs.heapMax, hs.hung⟩, by simp, ?_, ?_, rfl⟩
  · have hxmem : x.addr ∈ headers L (pre ++ t :: post) :=
      hheaders ▸ HeapShape.addr_mem_headers hx
    show 8 * (h.setNext prevp (h.next t.addr)).size x.addr = x.len
    rw [hsize _ hxmem]
    simp only [List.mem_append, List.mem_cons] at hx
    rcases hx with hx | rfl | hx
    · exact hs.units x (by simp [hx])
    · exact hs.units t (by simp)
    · exact hs.units x (by simp [hx])
  · rw [hlist']
    refine hring.remove_after ?_ fun x hx => ?_
    · show (h.setNext prevp (h.next t.addr)).next prevp = _
      rw [Heap.next_setNext h hs.spread hpmem hpmem (Heap.next_lt h _), Function.update_self]
    · have hxl : x ∈ L.base :: openAddrs (pre ++ t :: post) := by
        rw [hlist]
        simp only [List.mem_append, List.mem_cons] at hx ⊢
        tauto
      have hne : x ≠ prevp := by
        rintro rfl
        simp only [List.nodup_append, List.nodup_cons, List.mem_cons, List.mem_append] at hnodup hx
        rcases hx with hx | hx
        · exact hnodup.2.2 x hx x (.inl rfl) rfl
        · exact hnodup.2.1.1 (.inr hx)
      show (h.setNext prevp (h.next t.addr)).next x = _
      rw [Heap.next_setNext h hs.spread hpmem (HeapShape.ring_subset _ hxl) (Heap.next_lt h _),
        Function.update_of_ne hne]
  · show (h.setNext prevp (h.next t.addr)).size L.base = 0
    rw [hsize _ List.mem_cons_self]
    exact hs.base_size
  · rw [hlist']
    simp
  · simp [ownedTiles]
  · rw [hheaders]
    exact Heap.sameOutside_setNext h hpmem

/-- A larger block gives up its last headers and stays in the free list. -/
theorem HeapShape.takeBlock_split (hs : HeapShape L h (pre ++ t :: post)) (ht : t.owner = none)
    (hprev : prevp ∈ L.base :: openAddrs (pre ++ t :: post)) (hn : 0 < nunits)
    (hfit : nunits < h.size t.addr) (n : Nat) (lv : List (Nat × Nat)) :
    Heap.headerAt t.addr (h.size t.addr - nunits) = t.addr + (t.len - 8 * nunits) ∧
    Taken L h
      { (h.setSize t.addr (h.size t.addr - nunits)).setSize (t.addr + (t.len - 8 * nunits)) nunits
        with freep := prevp, live := lv } pre post
      ⟨t.addr + (t.len - 8 * nunits), 8 * nunits, some n⟩
      (pre ++ ⟨t.addr, t.len - 8 * nunits, none⟩ ::
        ⟨t.addr + (t.len - 8 * nunits), 8 * nunits, some n⟩ :: post) := by
  have htm : t ∈ pre ++ t :: post := by simp
  have hb := hs.bounds htm
  have hsz := Heap.size_lt h t.addr
  have hq : Heap.headerAt t.addr (h.size t.addr - nunits) = t.addr + (t.len - 8 * nunits) := by
    rw [Heap.headerAt, Heap.u32_of_lt (by omega)]
    omega
  refine ⟨hq, ?_⟩
  generalize hk : t.len - 8 * nunits = k
  have hksize : 8 * (h.size t.addr - nunits) = k := by omega
  have htiled : Tiled L.heapStart
      (pre ++ ⟨t.addr, k, none⟩ :: ⟨t.addr + k, 8 * nunits, some n⟩ :: post) h.heapCurrent := by
    have hsplit := hs.tiled.split (k := k) (by omega) (by omega) none (some n)
    rwa [show t.len - k = 8 * nunits by omega] at hsplit
  have hlen : ∀ x ∈ pre ++ ⟨t.addr, k, none⟩ :: ⟨t.addr + k, 8 * nunits, some n⟩ :: post,
      8 ≤ x.len := by
    intro x hx
    simp only [List.mem_append, List.mem_cons] at hx
    rcases hx with hx | rfl | rfl | hx
    · exact (hs.bounds (by simp [hx])).2.1
    · simp only
      omega
    · simp only
      omega
    · exact (hs.bounds (by simp [hx])).2.1
  have hspread := spread_of_tiled htiled hlen
  have htmem : t.addr ∈ headers L
      (pre ++ ⟨t.addr, k, none⟩ :: ⟨t.addr + k, 8 * nunits, some n⟩ :: post) := by
    simp [headers]
  have hqmem : t.addr + k ∈ headers L
      (pre ++ ⟨t.addr, k, none⟩ :: ⟨t.addr + k, 8 * nunits, some n⟩ :: post) := by
    simp [headers]
  have hsub : headers L (pre ++ t :: post) ⊆ headers L
      (pre ++ ⟨t.addr, k, none⟩ :: ⟨t.addr + k, 8 * nunits, some n⟩ :: post) := by
    intro x hx
    simp only [headers, List.map_append, List.map_cons, List.mem_cons, List.mem_append] at hx ⊢
    tauto
  have hlist : L.base :: openAddrs
      (pre ++ ⟨t.addr, k, none⟩ :: ⟨t.addr + k, 8 * nunits, some n⟩ :: post) =
      L.base :: openAddrs (pre ++ t :: post) := by
    rw [openAddrs_append, openAddrs_append, openAddrs_cons_open ht, openAddrs_cons_open rfl,
      openAddrs_cons_owned (o := n) rfl]
  -- The two stores seen from every header of the new tiling.
  have hview : ∀ x ∈ headers L
      (pre ++ ⟨t.addr, k, none⟩ :: ⟨t.addr + k, 8 * nunits, some n⟩ :: post),
      ((h.setSize t.addr (h.size t.addr - nunits)).setSize (t.addr + k) nunits).next x = h.next x ∧
      ((h.setSize t.addr (h.size t.addr - nunits)).setSize (t.addr + k) nunits).size x =
        Function.update (Function.update h.size t.addr (h.size t.addr - nunits))
          (t.addr + k) nunits x := by
    intro x hx
    constructor
    · rw [Heap.next_setSize _ hspread hqmem hx, Heap.next_setSize _ hspread htmem hx]
    · rw [Heap.size_setSize _ hspread hqmem hx (by omega)]
      by_cases hxq : x = t.addr + k
      · rw [hxq, Function.update_self, Function.update_self]
      · rw [Function.update_of_ne hxq, Function.update_of_ne hxq,
          Heap.size_setSize _ hspread htmem hx (by omega)]
  refine ⟨⟨htiled, fun x hx => ?_, ?_, ?_, ?_, ?_, hs.top, hs.heapMax, hs.hung⟩, by simp, ?_, ?_, rfl⟩
  · have hxh := (hview x.addr (HeapShape.addr_mem_headers hx)).2
    refine (congrArg (8 * ·) hxh).trans ?_
    have hother : x ∈ pre ++ t :: post → x.addr ≠ t.addr → x.addr ≠ t.addr + k →
        8 * Function.update (Function.update h.size t.addr (h.size t.addr - nunits))
          (t.addr + k) nunits x.addr = x.len := by
      intro hxm hne hne'
      rw [Function.update_of_ne hne', Function.update_of_ne hne]
      exact hs.units x hxm
    obtain ⟨hpre, -, hpost⟩ := hs.tiled.around
    simp only [List.mem_append, List.mem_cons] at hx
    rcases hx with hx | rfl | rfl | hx
    · have := hpre.bounds hx
      exact hother (by simp [hx]) (by omega) (by omega)
    · have hne : t.addr ≠ t.addr + k := by omega
      simp only [Function.update_of_ne hne, Function.update_self]
      exact hksize
    · simp
    · have := hpost.bounds hx
      exact hother (by simp [hx]) (by omega) (by omega)
  · rw [hlist]
    exact hs.ring.congr fun x hx => (hview x (hsub (HeapShape.ring_subset _ hx))).1
  · refine (hview L.base List.mem_cons_self).2.trans ?_
    have := hb.1
    rw [Function.update_of_ne (by omega), Function.update_of_ne (by omega)]
    exact hs.base_size
  · rw [hlist]
    exact hprev
  · -- The remainder is open where {lit}`t` was, and the taken block behind it is owned.
    obtain ⟨hpre, hpost⟩ : Coalesced (pre ++ [t]) ∧ Coalesced (t :: post) :=
      List.isChain_split.1 hs.coalesced
    have hpre' : Coalesced (pre ++ [⟨t.addr, k, none⟩]) := by
      rw [Coalesced, List.isChain_append] at hpre ⊢
      refine ⟨hpre.1, List.isChain_singleton _, fun x hx y _ => ?_⟩
      have := hpre.2.2 x hx t (by simp)
      simp only [ht, Option.isSome_none, Bool.false_eq_true, or_false] at this
      exact .inl this
    exact List.isChain_split.2 ⟨hpre', List.isChain_cons_cons.2 ⟨.inr rfl,
      List.isChain_cons.2 ⟨fun _ _ => .inl rfl, (List.isChain_cons.1 hpost).2⟩⟩⟩
  · simp [ownedTiles]
  · exact (Heap.sameOutside_setSize h htmem).trans (Heap.sameOutside_setSize _ hqmem)

/-- Taking a fitting block of the free list gives the tiling in which it is owned. -/
theorem HeapShape.takeBlock (hs : HeapShape L h (pre ++ t :: post)) (ht : t.owner = none)
    (hprev : prevp ∈ L.base :: openAddrs (pre ++ t :: post)) (hnext : h.next prevp = t.addr)
    (hn : 0 < nunits) (hfit : nunits ≤ h.size t.addr) (n : Nat) (lv : List (Nat × Nat)) :
    ∃ u ts', (h.takeBlock nunits prevp t.addr).1 = u.addr ∧ u.owner = some n ∧
      u.len = 8 * nunits ∧
      (∀ l, 0 < l →
        (OpenFits ts' l ↔ OpenFitsBeside (pre ++ t :: post) t.addr (8 * nunits) l)) ∧
      Taken L h { (h.takeBlock nunits prevp t.addr).2 with freep := prevp, live := lv }
        pre post u ts' := by
  have hunits := hs.units t (by simp)
  by_cases heq : h.size t.addr = nunits
  · have htake : h.takeBlock nunits prevp t.addr = (t.addr, h.setNext prevp (h.next t.addr)) := by
      rw [Heap.takeBlock, if_pos heq]
    rw [htake]
    have hlen : t.len = 8 * nunits := by omega
    refine ⟨⟨t.addr, t.len, some n⟩, _, rfl, rfl, hlen, fun l hl => ?_,
      hs.takeBlock_exact ht hprev hnext n lv⟩
    rw [hs.tiled.openFits_take ht rfl hl, hlen]
  · have hlt : nunits < h.size t.addr := by omega
    obtain ⟨hq, htaken⟩ := hs.takeBlock_split ht hprev hn hlt n lv
    have hspread := hs.spread
    have htmem : t.addr ∈ headers L (pre ++ t :: post) := HeapShape.addr_mem_headers (by simp)
    have hsz := Heap.size_lt h t.addr
    have hnew : (h.setSize t.addr (h.size t.addr - nunits)).size t.addr = h.size t.addr - nunits := by
      rw [Heap.size_setSize h hspread htmem htmem (by omega), Function.update_self]
    have htake : h.takeBlock nunits prevp t.addr = (t.addr + (t.len - 8 * nunits),
        (h.setSize t.addr (h.size t.addr - nunits)).setSize (t.addr + (t.len - 8 * nunits))
          nunits) := by
      simp only [Heap.takeBlock, if_neg heq, hnew, hq]
    rw [htake]
    refine ⟨_, _, rfl, rfl, rfl, fun l _ => ?_, htaken⟩
    exact hs.tiled.openFits_split ht rfl rfl (by simp only; omega)

end TakeBlock

/-! ## The walk over the free list -/

section Walk

variable {nbytes nunits fuel prevp : Nat} {s : Store} {l : List Nat}

/-- The result of {lit}`kmalloc` once the fitting block {lit}`p` behind {lit}`prevp` is found. -/
def Store.finish (s : Store) (nbytes nunits prevp p : Nat) : Nat × Store :=
  (Heap.headerAt (s.heap.takeBlock nunits prevp p).1 1,
    { s with heap := { (s.heap.takeBlock nunits prevp p).2 with
        freep := prevp
        live := (Heap.headerAt (s.heap.takeBlock nunits prevp p).1 1, nbytes) ::
          (s.heap.takeBlock nunits prevp p).2.live } })

/-- The search ends at a block that fits. -/
theorem kmallocLoop_fit {p : Nat} (h : nunits ≤ s.heap.size p) :
    Store.kmallocLoop nbytes nunits (fuel + 1) prevp p s = s.finish nbytes nunits prevp p := by
  simp only [Store.kmallocLoop]
  rw [if_pos h]
  rfl

/-- The block at which the search for {lit}`nunits` headers stops: the first one behind
{lit}`freep` that fits. -/
def Heap.fitting (h : Heap) (nunits : Nat) : Option Nat :=
  seek h.next (fun p => nunits ≤ h.size p) searchFuel (h.next h.freep)

/-- One lap of the search: it stops at the first fitting block, or it comes back to
{lit}`freep` and asks for more memory. -/
theorem kmallocLoop_lap (nbytes nunits : Nat)
    (hl : Linked s.heap.next (prevp :: l ++ [s.heap.freep]))
    (hnot : s.heap.freep ∉ l) (hfuel : l.length < fuel) :
    (∃ q ∈ prevp :: l, nunits ≤ s.heap.size (s.heap.next q) ∧
        seek s.heap.next (fun p => nunits ≤ s.heap.size p) fuel (s.heap.next prevp) =
          some (s.heap.next q) ∧
        Store.kmallocLoop nbytes nunits fuel prevp (s.heap.next prevp) s =
          s.finish nbytes nunits q (s.heap.next q)) ∨
      ((∀ x ∈ l ++ [s.heap.freep], s.heap.size x < nunits) ∧
        Store.kmallocLoop nbytes nunits fuel prevp (s.heap.next prevp) s =
          if (s.morecore nunits).1 = 0 then (0, (s.morecore nunits).2)
          else Store.kmallocLoop nbytes nunits (fuel - l.length - 1) (s.morecore nunits).1
            ((s.morecore nunits).2.heap.next (s.morecore nunits).1) (s.morecore nunits).2) := by
  induction l generalizing prevp fuel with
  | nil =>
      obtain ⟨fuel, rfl⟩ : ∃ k, fuel = k + 1 := ⟨fuel - 1, by simp at hfuel; omega⟩
      have hnext : s.heap.next prevp = s.heap.freep := by simpa [Linked] using hl
      rw [hnext]
      by_cases hfit : nunits ≤ s.heap.size s.heap.freep
      · exact .inl ⟨prevp, by simp, by rwa [hnext], by rw [hnext, seek, if_pos (by simpa using hfit)],
          by rw [hnext, kmallocLoop_fit hfit]⟩
      · refine .inr ⟨by simpa using hfit, ?_⟩
        simp only [Store.kmallocLoop, List.length_nil, Nat.sub_zero, Nat.add_sub_cancel]
        rw [if_neg hfit]
        rfl
  | cons a l ih =>
      obtain ⟨fuel, rfl⟩ : ∃ k, fuel = k + 1 := ⟨fuel - 1, by simp at hfuel; omega⟩
      have hsplit : s.heap.next prevp = a ∧ Linked s.heap.next (a :: l ++ [s.heap.freep]) := by
        simpa [Linked, List.isChain_cons_cons] using hl
      rw [hsplit.1]
      by_cases hfit : nunits ≤ s.heap.size a
      · exact .inl ⟨prevp, by simp, by rwa [hsplit.1],
          by rw [hsplit.1, seek, if_pos (by simpa using hfit)],
          by rw [hsplit.1, kmallocLoop_fit hfit]⟩
      · have hne : a ≠ s.heap.freep := fun heq => hnot (by simp [heq])
        have hstep : Store.kmallocLoop nbytes nunits (fuel + 1) prevp a s =
            Store.kmallocLoop nbytes nunits fuel a (s.heap.next a) s := by
          rw [Store.kmallocLoop, if_neg hfit, if_neg hne]
        rw [hstep]
        rcases ih hsplit.2 (fun hmem => hnot (by simp [hmem])) (by simp at hfuel; omega) with
          ⟨q, hq, hqfit, hseek, hres⟩ | ⟨hsmall, hres⟩
        · refine .inl ⟨q, List.mem_cons_of_mem _ hq, hqfit, ?_, hres⟩
          rw [seek, if_neg (by simpa using hfit)]
          exact hseek
        · refine .inr ⟨fun x hx => ?_, ?_⟩
          · rcases List.mem_cons.1 hx with rfl | hx
            · omega
            · exact hsmall x hx
          · rw [hres, List.length_cons, show fuel + 1 - (l.length + 1) - 1 = fuel - l.length - 1 by omega]

end Walk

/-! ## Growth -/

section Growth

variable {L : Layout}

/-- The entry of the kernel page table for a heap address. -/
def pageIndex (v : Nat) : Nat :=
  v / 4096 % 1024

/-- What heap growth may do to memory: it takes free frames and maps them at or
above a page of the kernel window. -/
structure MemGrown (m m' : Memory) (lo : Nat) : Prop where
  phys : m'.phys = m.phys
  pageDirectory : m'.pageDirectory = m.pageDirectory
  cr3 : m'.cr3 = m.cr3
  strayAccess : m'.strayAccess = m.strayAccess
  destroyedLoaded : m'.destroyedLoaded = m.destroyedLoaded
  startFrame : m'.pfa.startFrame = m.pfa.startFrame
  totalFrames : m'.pfa.totalFrames = m.pfa.totalFrames
  exhausted : m.pfa.exhausted = true → m'.pfa.exhausted = true
  spent : m'.pfa.exhausted = true → m.pfa.exhausted = true ∨ m'.pfa.freeCount = 0
  keeps : ∀ f, m.pfa.used f = true → m'.pfa.used f = true
  takes : ∀ f, m'.pfa.used f = true → m.pfa.used f = true ∨ m.pfa.Free f
  maps : ∀ i, m'.kernelPageTable i = m.kernelPageTable i ∨
    (lo ≤ i ∧ i < 1023 ∧ ∃ f, m.pfa.Free f ∧ m'.pfa.used f = true ∧
      m'.kernelPageTable i = 4096 * f + 3)
  backs : ∀ f, m'.pfa.used f = true → m.pfa.used f = true ∨
    ∃ i, lo ≤ i ∧ i < 1023 ∧ i + m'.pfa.freeCount < lo + m.pfa.freeCount ∧
      m'.kernelPageTable i = 4096 * f + 3
  frees : m'.pfa.freeFrames <:+ m.pfa.freeFrames

/-- A heap that has not grown. -/
theorem MemGrown.refl (m : Memory) (lo : Nat) : MemGrown m m lo :=
  ⟨rfl, rfl, rfl, rfl, rfl, rfl, rfl, id, fun h => .inl h, fun _ h => h, fun _ h => .inl h,
    fun _ => .inl rfl, fun _ h => .inl h, List.suffix_refl _⟩

/-- What growth leaves alone on the heap side: the bytes below {lit}`old` and the
static variables. -/
structure HeapKept (h h' : Heap) (old : Nat) : Prop where
  bytes : ∀ x, x < old → h'.bytes x = h.bytes x
  freep : h'.freep = h.freep
  heapCurrent : h'.heapCurrent = h.heapCurrent
  heapMax : h'.heapMax = h.heapMax
  hung : h'.hung = h.hung
  live : h'.live = h.live

/-- The state of {lit}`ksbrk` after {lit}`i` pages from {lit}`old` on. -/
structure Backed (s₀ s : Store) (old i : Nat) : Prop where
  grown : MemGrown s₀.mem s.mem (pageIndex old)
  heap : HeapKept s₀.heap s.heap old
  pages : ∀ j, j < i → ∃ f, s₀.mem.pfa.Free f ∧ s.mem.pfa.used f = true ∧
    s.mem.kernelPageTable (pageIndex old + j) = 4096 * f + 3
  distinct : ∀ j k, j < i → k < i → s.mem.kernelPageTable (pageIndex old + j) =
    s.mem.kernelPageTable (pageIndex old + k) → j = k
  count : s.mem.pfa.freeCount + i = s₀.mem.pfa.freeCount

/-- The entries of consecutive pages follow each other. -/
theorem pageIndex_add {old i : Nat} (hlo : 0xC0000000 ≤ old) (halign : old % 4096 = 0)
    (hhi : old + 4096 * i < 0xC0400000) : pageIndex (old + 4096 * i) = pageIndex old + i := by
  simp only [pageIndex]
  omega

/-- There is no free frame, and an allocation has found that out. -/
def Spent (p : Pfa) : Prop :=
  p.freeCount = 0 ∧ p.exhausted = true

/-- One page of growth. -/
theorem Backed.step {s₀ s : Store} {old i : Nat} (hb : Backed s₀ s old i)
    (hwin : PfaWindow s₀.mem.pfa) (hlo : 0xC0000000 ≤ old) (halign : old % 4096 = 0)
    (hhi : old + 4096 * i < 0xC03FF000) :
    (∀ s', Store.ksbrkPage (old + 4096 * i) s = .ok s' → Backed s₀ s' old (i + 1)) ∧
      (∀ e, Store.ksbrkPage (old + 4096 * i) s = .error e →
        MemGrown s₀.mem e.mem (pageIndex old) ∧ HeapKept s₀.heap e.heap old ∧
          s₀.mem.pfa.freeCount = i ∧ Spent e.mem.pfa) := by
  have hstart : s.mem.pfa.startFrame = s₀.mem.pfa.startFrame := hb.grown.startFrame
  have htotal : s.mem.pfa.totalFrames = s₀.mem.pfa.totalFrames := hb.grown.totalFrames
  rcases s.mem.pfa.freeCount_pfaAlloc with ⟨f, hf, halloc, hcount⟩ | ⟨hcount, halloc⟩
  · have hf0 : f ≠ 0 := by
      have := hf.1
      have := hwin.1
      omega
    have hf20 : f < 2 ^ 20 := by
      have := hf.2.1
      have := hwin.2
      omega
    have hfree : s₀.mem.pfa.Free f := by
      refine ⟨hstart ▸ hf.1, htotal ▸ hf.2.1, ?_⟩
      by_contra hused
      have := hb.grown.keeps f (by simpa using hused)
      simp [hf.2.2] at this
    have hindex := pageIndex_add hlo halign (i := i) (by omega)
    have hlt : pageIndex old + i < 1023 := by
      rw [← hindex, pageIndex]
      omega
    have hpd : (old + 4096 * i) / 2 ^ 22 = 768 := by omega
    have hpt : (old + 4096 * i) / 2 ^ 12 % 1024 = pageIndex old + i := by
      rw [← hindex, pageIndex, show (2 : Nat) ^ 12 = 4096 from rfl]
    refine ⟨fun s' hs' => ?_, fun e he => ?_⟩
    · simp only [Store.ksbrkPage, Memory.pfaAlloc, halloc] at hs'
      rw [if_neg (by omega)] at hs'
      simp only [Memory.pagingMapPage, hpd, hpt, if_true, frameBits_mul hf20,
        frame_or_flags f (show (3 : Nat) < 4096 by norm_num), decide_eq_false hlt.ne,
        Bool.or_false, Except.ok.injEq] at hs'
      subst hs'
      have hused : ∀ g, ({ s.mem.pfa with bitmap := s.mem.pfa.bitmap.set f } : Pfa).used g =
          (s.mem.pfa.used g || decide (f = g)) :=
        fun g => Pfa.used_mk_set s.mem.pfa f g s.mem.pfa.exhausted
      have hnew : Function.update s.mem.kernelPageTable (pageIndex old + i) (4096 * f + 3)
          (pageIndex old + i) = 4096 * f + 3 := Function.update_self ..
      have hold : ∀ j, j ≠ pageIndex old + i →
          Function.update s.mem.kernelPageTable (pageIndex old + i) (4096 * f + 3) j =
            s.mem.kernelPageTable j := fun j hj => Function.update_of_ne hj ..
      -- The new frame was free, so no page mapped before shows it.
      have hfresh : ∀ j, j < i → s.mem.kernelPageTable (pageIndex old + j) ≠ 4096 * f + 3 := by
        intro j hj heq
        obtain ⟨g, -, hgused, hg⟩ := hb.pages j hj
        have hgf : g = f := by omega
        rw [hgf, hf.2.2] at hgused
        cases hgused
      refine ⟨⟨hb.grown.phys, hb.grown.pageDirectory, hb.grown.cr3, hb.grown.strayAccess,
        hb.grown.destroyedLoaded, hstart, htotal, hb.grown.exhausted, ?_, ?_, ?_, ?_, ?_, ?_⟩, ⟨?_,
        hb.heap.freep, hb.heap.heapCurrent, hb.heap.heapMax, hb.heap.hung, hb.heap.live⟩, ?_, ?_, ?_⟩
      · intro hexh
        rcases hb.grown.spent hexh with h | h
        · exact .inl h
        · omega
      · intro g hg
        simp [hused, hb.grown.keeps g hg]
      · intro g hg
        simp only [hused, Bool.or_eq_true, decide_eq_true_eq] at hg
        rcases hg with hg | rfl
        · exact hb.grown.takes g hg
        · exact .inr hfree
      · intro j
        by_cases hj : j = pageIndex old + i
        · refine .inr ⟨by omega, by omega, f, hfree, by simp [hused], ?_⟩
          rw [hj]
          exact hnew
        · rcases hb.grown.maps j with hsame | ⟨hjlo, hjhi, g, hg, hgused, hgm⟩
          · exact .inl ((hold j hj).trans hsame)
          · exact .inr ⟨hjlo, hjhi, g, hg, by simp [hused, hgused], (hold j hj).trans hgm⟩
      · -- The pages mapped so far are those below the new one.
        have hc := hb.count
        rw [halloc] at hcount
        simp only at hcount
        intro g hg
        simp only [hused, Bool.or_eq_true, decide_eq_true_eq] at hg
        rcases hg with hg | rfl
        · rcases hb.grown.backs g hg with hg | ⟨j, hjlo, hjhi, hjc, hgm⟩
          · exact .inl hg
          · exact .inr ⟨j, hjlo, hjhi, by simp only; omega, (hold j (by omega)).trans hgm⟩
        · exact .inr ⟨pageIndex old + i, by omega, hlt, by simp only; omega, hnew⟩
      · have htail := s.mem.pfa.pfaAlloc_freeFrames.2
        rw [halloc] at htail
        rw [htail]
        exact (List.tail_suffix _).trans hb.grown.frees
      · intro x hx
        have hpage : x / 4096 ≠ (old + 4096 * i) / 4096 := by omega
        simp only [Heap.showFrame, if_neg hpage]
        exact hb.heap.bytes x hx
      · intro j hj
        by_cases hji : j = i
        · exact ⟨f, hfree, by simp [hused], by rw [hji]; exact hnew⟩
        · obtain ⟨g, hg, hgused, hgm⟩ := hb.pages j (by omega)
          exact ⟨g, hg, by simp [hused, hgused], (hold _ (by omega)).trans hgm⟩
      · intro j k hj hk heq
        simp only at heq
        by_cases hji : j = i <;> by_cases hki : k = i
        · omega
        · rw [hji, hnew, hold _ (by omega)] at heq
          exact absurd heq.symm (hfresh k (by omega))
        · rw [hki, hnew, hold _ (by omega)] at heq
          exact absurd heq (hfresh j (by omega))
        · rw [hold _ (by omega), hold _ (by omega)] at heq
          exact hb.distinct j k (by omega) (by omega) heq
      · have hc := hb.count
        rw [halloc] at hcount
        simp only at hcount ⊢
        omega
    · simp only [Store.ksbrkPage, Memory.pfaAlloc, halloc] at he
      rw [if_neg (by omega)] at he
      cases he
  · refine ⟨fun s' hs' => ?_, fun e he => ?_⟩
    · simp [Store.ksbrkPage, Memory.pfaAlloc, halloc] at hs'
    · simp only [Store.ksbrkPage, Memory.pfaAlloc, halloc, if_true, Except.error.injEq] at he
      subst he
      exact ⟨⟨hb.grown.phys, hb.grown.pageDirectory, hb.grown.cr3, hb.grown.strayAccess,
        hb.grown.destroyedLoaded, hstart, htotal, fun _ => rfl, fun _ => .inr hcount, hb.grown.keeps,
        hb.grown.takes, hb.grown.maps, hb.grown.backs, hb.grown.frees⟩,
        hb.heap, by rw [← hb.count, hcount, Nat.zero_add], hcount, rfl⟩

/-- A multiple of the page size is not rounded. -/
theorem pageAlignUp_mul {k : Nat} (hk : 4096 * k < 2 ^ 31) : pageAlignUp (4096 * k) = 4096 * k := by
  simp only [pageAlignUp, u32]
  omega

/-- How a growth by {lit}`k` pages fails: at the end of the heap's room, before anything is
done, or when every free frame is taken. -/
def GrowthFails (s s' : Store) (k : Nat) : Prop :=
  (0xC03FF000 < s.heap.heapCurrent + 4096 * k ∧ s' = s) ∨
    (s.heap.heapCurrent + 4096 * k ≤ 0xC03FF000 ∧ s.mem.pfa.freeCount < k ∧ Spent s'.mem.pfa)

/-- The heap fails to grow at its limit or for want of frames. -/
theorem GrowthFails.why {s s' : Store} {k : Nat} (h : GrowthFails s s' k) :
    0xC03FF000 < s.heap.heapCurrent + 4096 * k ∨ s.mem.pfa.freeCount < k := by
  rcases h with ⟨hroom, -⟩ | ⟨-, hshort, -⟩
  · exact .inl hroom
  · exact .inr hshort

/-- What one call of {lit}`ksbrk` for {lit}`k` pages can do. -/
theorem ksbrk_cases {s : Store} {k : Nat} (hwin : PfaWindow s.mem.pfa)
    (hlo : 0xC0000000 ≤ s.heap.heapCurrent) (halign : s.heap.heapCurrent % 4096 = 0)
    (htop : s.heap.heapCurrent ≤ 0xC03FF000) (hmax : s.heap.heapMax = 0xC03FF000)
    (hk : k ≤ 2 ^ 16) :
    (s.heap.heapCurrent + 4096 * k ≤ 0xC03FF000 ∧ ∃ s', Backed s s' s.heap.heapCurrent k ∧
        s.ksbrk (4096 * k) = (s.heap.heapCurrent,
          { s' with heap := { s'.heap with heapCurrent := s.heap.heapCurrent + 4096 * k } })) ∨
      (∃ s', s.ksbrk (4096 * k) = (0xFFFFFFFF, s') ∧
        MemGrown s.mem s'.mem (pageIndex s.heap.heapCurrent) ∧
        HeapKept s.heap s'.heap s.heap.heapCurrent ∧ GrowthFails s s' k) := by
  have hround : pageAlignUp (4096 * k) = 4096 * k := pageAlignUp_mul (by omega)
  have hsum : u32 (s.heap.heapCurrent + 4096 * k) = s.heap.heapCurrent + 4096 * k :=
    Heap.u32_of_lt (by omega)
  by_cases hfit : s.heap.heapCurrent + 4096 * k > 0xC03FF000
  · refine .inr ⟨s, ?_, MemGrown.refl _ _, ⟨fun _ _ => rfl, rfl, rfl, rfl, rfl, rfl⟩,
      .inl ⟨hfit, rfl⟩⟩
    simp only [Store.ksbrk, hround, hsum, hmax, if_pos hfit]
  · have hpasses : (s.heap.heapCurrent + 4096 * k - s.heap.heapCurrent + 4095) / 4096 = k := by
      omega
    have hinit : Backed s s s.heap.heapCurrent 0 :=
      ⟨MemGrown.refl _ _, ⟨fun _ _ => rfl, rfl, rfl, rfl, rfl, rfl⟩, fun j hj => by omega,
        fun j _ hj => by omega, rfl⟩
    obtain ⟨hok, herr⟩ := @tryRange_induct _ _ k
      (fun i => Store.ksbrkPage (s.heap.heapCurrent + 4096 * i)) s
      (fun i t => Backed s t s.heap.heapCurrent i)
      (fun e => MemGrown s.mem e.mem (pageIndex s.heap.heapCurrent) ∧
        HeapKept s.heap e.heap s.heap.heapCurrent ∧ s.mem.pfa.freeCount < k ∧ Spent e.mem.pfa)
      hinit (by
        intro i hi t ht
        have hstep := ht.step hwin hlo halign (by omega)
        refine ⟨hstep.1, fun e he => ?_⟩
        obtain ⟨hgrown, hkept, hcount, hspent⟩ := hstep.2 e he
        exact ⟨hgrown, hkept, by omega, hspent⟩)
    cases hrun : tryRange k (fun i => Store.ksbrkPage (s.heap.heapCurrent + 4096 * i)) s with
    | ok s' =>
        refine .inl ⟨by omega, s', hok s' hrun, ?_⟩
        simp only [Store.ksbrk, hround, hsum, hmax, if_neg hfit, hpasses, hrun]
    | error e =>
        obtain ⟨hgrown, hkept, hcount⟩ := herr e hrun
        refine .inr ⟨e, ?_, hgrown, hkept, .inr ⟨by omega, hcount⟩⟩
        simp only [Store.ksbrk, hround, hsum, hmax, if_neg hfit, hpasses, hrun]

/-- The shape of the heap depends only on its headers and the static variables. -/
theorem HeapShape.congr {h h' : Heap} {ts : List (Tile Nat)} (hs : HeapShape L h ts)
    (hbytes : ∀ a ∈ headers L ts, ∀ x, a ≤ x → x < a + 8 → h'.bytes x = h.bytes x)
    (hfreep : h'.freep = h.freep) (hcur : h'.heapCurrent = h.heapCurrent)
    (hmax : h'.heapMax = h.heapMax) (hhung : h'.hung = h.hung) : HeapShape L h' ts := by
  have hnext : ∀ a ∈ headers L ts, h'.next a = h.next a := fun a ha =>
    ByteMemory.read32_congr fun x hlo hhi => hbytes a ha x hlo (by omega)
  have hsize : ∀ a ∈ headers L ts, h'.size a = h.size a := fun a ha =>
    ByteMemory.read32_congr fun x hlo hhi => hbytes a ha x (by omega) (by omega)
  refine ⟨hcur ▸ hs.tiled, fun t ht => ?_, ?_, ?_, hfreep ▸ hs.freep_mem, hs.coalesced,
    hcur ▸ hs.top, hmax.trans hs.heapMax, hhung.trans hs.hung⟩
  · rw [hsize _ (HeapShape.addr_mem_headers ht)]
    exact hs.units t ht
  · exact hs.ring.congr fun x hx => hnext x (HeapShape.ring_subset _ hx)
  · rw [hsize _ List.mem_cons_self]
    exact hs.base_size

/-- Growth keeps the shape of the heap below it. -/
theorem HeapShape.kept {h h' : Heap} {ts : List (Tile Nat)} (hs : HeapShape L h ts)
    (hk : HeapKept h h' h.heapCurrent) : HeapShape L h' ts := by
  refine hs.congr (fun a ha x hlo hhi => hk.bytes x ?_) hk.freep hk.heapCurrent hk.heapMax hk.hung
  have hbase := base_lt L
  have hle := hs.tiled.le
  simp only [headers, List.mem_cons, List.mem_map] at ha
  rcases ha with rfl | ⟨t, ht, rfl⟩
  · omega
  · have := hs.bounds ht
    have := hs.tiled.bounds ht
    omega

/-- New pages become an owned block at the end once their header holds the size. -/
theorem HeapShape.extend {h : Heap} {ts : List (Tile Nat)} (hs : HeapShape L h ts) {n : Nat}
    (hn : 0 < n) (htop : h.heapCurrent + 8 * n ≤ 0xC03FF000) (o : Nat) :
    HeapShape L (Heap.setSize { h with heapCurrent := h.heapCurrent + 8 * n } h.heapCurrent n)
      (ts ++ [⟨h.heapCurrent, 8 * n, some o⟩]) := by
  have htiled := hs.tiled.snoc (k := 8 * n) (by omega) (some o)
  have hspread : Heap.Spread (headers L (ts ++ [⟨h.heapCurrent, 8 * n, some o⟩])) := by
    refine spread_of_tiled htiled fun t ht => ?_
    simp only [List.mem_append, List.mem_singleton] at ht
    rcases ht with ht | rfl
    · exact (hs.bounds ht).2.1
    · simp only
      omega
  have hnew : h.heapCurrent ∈ headers L (ts ++ [⟨h.heapCurrent, 8 * n, some o⟩]) := by
    simp [headers]
  have hsub : headers L ts ⊆ headers L (ts ++ [⟨h.heapCurrent, 8 * n, some o⟩]) := by
    intro x hx
    simp only [headers, List.map_append, List.mem_cons, List.mem_append] at hx ⊢
    tauto
  have hsize : ∀ x ∈ headers L (ts ++ [⟨h.heapCurrent, 8 * n, some o⟩]),
      (Heap.setSize { h with heapCurrent := h.heapCurrent + 8 * n } h.heapCurrent n).size x =
        Function.update h.size h.heapCurrent n x :=
    fun x hx => Heap.size_setSize { h with heapCurrent := h.heapCurrent + 8 * n } hspread hnew hx
      (by omega)
  have hne : ∀ x ∈ headers L ts, x ≠ h.heapCurrent := by
    intro x hx
    have hbase := base_lt L
    have hle := hs.tiled.le
    simp only [headers, List.mem_cons, List.mem_map] at hx
    rcases hx with rfl | ⟨t, ht, rfl⟩
    · omega
    · have := hs.tiled.bounds ht
      omega
  have hlist : L.base :: openAddrs (ts ++ [⟨h.heapCurrent, 8 * n, some o⟩]) =
      L.base :: openAddrs ts := by
    rw [openAddrs_append, openAddrs_cons_owned (o := o) rfl, openAddrs_nil, List.append_nil]
  refine ⟨htiled, fun t ht => ?_, ?_, ?_, ?_, ?_, htop, hs.heapMax, hs.hung⟩
  · rw [hsize _ (HeapShape.addr_mem_headers ht)]
    simp only [List.mem_append, List.mem_singleton] at ht
    rcases ht with ht | rfl
    · rw [Function.update_of_ne (hne _ (HeapShape.addr_mem_headers ht))]
      exact hs.units t ht
    · simp
  · rw [hlist]
    refine hs.ring.congr fun x hx => ?_
    exact Heap.next_setSize { h with heapCurrent := h.heapCurrent + 8 * n } hspread hnew
      (hsub (HeapShape.ring_subset _ hx))
  · rw [hsize _ List.mem_cons_self, Function.update_of_ne (hne _ List.mem_cons_self)]
    exact hs.base_size
  · rw [hlist]
    exact hs.freep_mem
  · refine List.isChain_append.2 ⟨hs.coalesced, List.isChain_singleton _, fun x _ y hy => ?_⟩
    obtain rfl : y = ⟨h.heapCurrent, 8 * n, some o⟩ := by simpa [eq_comm] using hy
    exact .inr rfl

/-- The number of pages {lit}`morecore` asks for. -/
def corePages (nunits : Nat) : Nat :=
  (8 * max nunits 128 + 4095) / 4096

/-- {lit}`morecore` asks for enough pages. -/
theorem corePages_bounds (nunits : Nat) :
    0 < corePages nunits ∧ 8 * nunits ≤ 4096 * corePages nunits := by
  simp only [corePages]
  omega

/-- The heap after a successful {lit}`morecore`: the new pages joined the free list. -/
structure Grown (L : Layout) (s s' : Store) (ts : List (Tile Nat)) (k : Nat) : Prop where
  shape : HeapShape L s'.heap (release ts ⟨s.heap.heapCurrent, 4096 * k, some 0⟩ [])
  fits : s.heap.heapCurrent + 4096 * k ≤ 0xC03FF000
  current : s'.heap.heapCurrent = s.heap.heapCurrent + 4096 * k
  live : s'.heap.live = s.heap.live.filter fun b => b.1 ≠ s.heap.heapCurrent + 8
  bytes : ∀ x, x < s.heap.heapCurrent → (∀ a ∈ headers L ts, x < a ∨ a + 8 ≤ x) →
    s'.heap.bytes x = s.heap.bytes x
  backed : ∃ s₁, Backed s s₁ s.heap.heapCurrent k ∧ s'.mem = s₁.mem

/-- What one call of {lit}`morecore` can do. -/
theorem HeapShape.morecore {s : Store} {ts : List (Tile Nat)} (hs : HeapShape L s.heap ts)
    (hwin : PfaWindow s.mem.pfa) (halign : s.heap.heapCurrent % 4096 = 0) {nunits : Nat}
    (hn : nunits ≤ 2 ^ 20) :
    (∃ s', s.morecore nunits = (s'.heap.freep, s') ∧ Grown L s s' ts (corePages nunits)) ∨
      (∃ s', s.morecore nunits = (0, s') ∧
        MemGrown s.mem s'.mem (pageIndex s.heap.heapCurrent) ∧
        HeapKept s.heap s'.heap s.heap.heapCurrent ∧ GrowthFails s s' (corePages nunits)) := by
  have hle := hs.tiled.le
  have hstart := L.heapStart_bounds
  have htop := hs.top
  have hpages := corePages_bounds nunits
  have hunits : (if nunits < 128 then 128 else nunits) = max nunits 128 := by
    split <;> omega
  have hbytes : pageAlignUp (u32 (max nunits 128 * 8)) = 4096 * corePages nunits := by
    simp only [pageAlignUp, u32, corePages]
    omega
  have hk : corePages nunits ≤ 2 ^ 16 := by
    simp only [corePages]
    omega
  rcases ksbrk_cases hwin (by omega) halign htop hs.heapMax hk with
    ⟨hfit, s₁, hbacked, hsbrk⟩ | ⟨s', hsbrk, hgrown, hkept, hwhy⟩
  · have hkept : HeapShape L s₁.heap ts := hs.kept hbacked.heap
    generalize hcur : s.heap.heapCurrent = cur at *
    have hcur₁ : s₁.heap.heapCurrent = cur := hbacked.heap.heapCurrent.trans hcur
    have hext := hkept.extend (n := 512 * corePages nunits) (by omega) (by omega) 0
    have hmul : 8 * (512 * corePages nunits) = 4096 * corePages nunits := by omega
    rw [hcur₁, hmul] at hext
    have hheader : Heap.headerAt cur 1 = cur + 8 := by
      rw [Heap.headerAt, Heap.u32_of_lt (by omega)]
    have hdiv : 4096 * corePages nunits / 8 = 512 * corePages nunits := by omega
    have hlive : (Heap.setSize { s₁.heap with heapCurrent := cur + 4096 * corePages nunits } cur
        (512 * corePages nunits)).live = s.heap.live := hbacked.heap.live
    have hbelow : ∀ x, x < cur → (Heap.setSize { s₁.heap with
        heapCurrent := cur + 4096 * corePages nunits } cur (512 * corePages nunits)).bytes x =
          s.heap.bytes x := by
      intro x hx
      refine Eq.trans ?_ (hbacked.heap.bytes x hx)
      exact ByteMemory.write32_apply_of_ne (.inl (by omega))
    have hcore : s.morecore nunits = (((Heap.setSize { s₁.heap with
        heapCurrent := cur + 4096 * corePages nunits } cur (512 * corePages nunits)).kfree
          (cur + 8)).freep, ⟨s₁.mem, (Heap.setSize { s₁.heap with
        heapCurrent := cur + 4096 * corePages nunits } cur (512 * corePages nunits)).kfree
          (cur + 8)⟩) := by
      simp only [Store.morecore, hunits, hbytes, hsbrk, hheader, hdiv]
      rw [if_neg (by omega)]
    have hend : (Heap.setSize { s₁.heap with heapCurrent := cur + 4096 * corePages nunits } cur
        (512 * corePages nunits)).heapCurrent = cur + 4096 * corePages nunits := rfl
    generalize Heap.setSize { s₁.heap with heapCurrent := cur + 4096 * corePages nunits } cur
      (512 * corePages nunits) = G at *
    have hfree := HeapShape.kfree hext (o := 0) rfl
    obtain ⟨hshape, hsame⟩ := hfree
    obtain ⟨hkcur, hklive⟩ := hext.kfree_frame (o := 0) rfl
    simp only at hshape hsame hkcur hklive
    refine .inl ⟨⟨s₁.mem, G.kfree (cur + 8)⟩, hcore, ?_, ?_, ?_, ?_, fun x hx hout => ?_, s₁, ?_, rfl⟩
    · rw [hcur]
      exact hshape
    · rwa [hcur]
    · rw [hcur]
      exact hkcur.trans hend
    · rw [hcur, ← hlive]
      exact hklive
    · rw [hcur] at hx
      refine (hsame x fun a ha => ?_).trans (hbelow x hx)
      simp only [headers, List.map_append, List.map_cons, List.map_nil, List.mem_cons,
        List.mem_append, List.not_mem_nil, or_false] at ha
      rcases ha with rfl | ha | rfl
      · exact hout _ List.mem_cons_self
      · exact hout a (List.mem_cons_of_mem _ ha)
      · exact .inl hx
    · rwa [hcur]
  · refine .inr ⟨s', ?_, hgrown, hkept, hwhy⟩
    simp only [Store.morecore, hunits, hbytes, hsbrk]
    rfl

end Growth

/-! ## The store invariant -/

/-- The entry of the history list for an owned block. -/
def liveEntry (t : Tile Nat) : Nat × Nat :=
  (t.addr + 8, t.owner.getD 0)

/-- The heap has its shape, its owned blocks are the live pointers with room for
what was asked for, and every page of it is backed by a used frame of its own. -/
structure HeapOk (L : Layout) (s : Store) (ts : List (Tile Nat)) : Prop where
  shape : HeapShape L s.heap ts
  live : s.heap.live.Perm ((ownedTiles ts).map liveEntry)
  room : ∀ t ∈ ts, ∀ n, t.owner = some n → n + 8 ≤ t.len ∧ t.len = 8 * unitsFor n
  aligned : s.heap.heapCurrent % 4096 = 0
  window : PfaWindow s.mem.pfa
  mapped : ∀ i, pageIndex L.heapStart ≤ i → i < pageIndex s.heap.heapCurrent →
    ∃ f, s.mem.pfa.used f = true ∧ s.mem.kernelPageTable i = 4096 * f + 3
  distinct : ∀ i j, pageIndex L.heapStart ≤ i → i < pageIndex s.heap.heapCurrent →
    pageIndex L.heapStart ≤ j → j < pageIndex s.heap.heapCurrent →
    s.mem.kernelPageTable i = s.mem.kernelPageTable j → i = j

section HeapOk

variable {L : Layout} {s s' : Store} {ts : List (Tile Nat)}

/-- The live blocks are the tiles with an owner. -/
theorem mem_ownedTiles {t : Tile Nat} : t ∈ ownedTiles ts ↔ t ∈ ts ∧ t.owner.isSome := by
  simp [ownedTiles]

/-- The payload of every block owned before and after is the same. -/
def PayloadKept (h h' : Heap) (ts ts' : List (Tile Nat)) : Prop :=
  ∀ t ∈ ownedTiles ts, t ∈ ts' → ∀ x, t.addr + 8 ≤ x → x < t.addr + t.len →
    h'.bytes x = h.bytes x

/-- A failed growth leaves the heap as it was. -/
theorem HeapOk.kept (hok : HeapOk L s ts)
    (hgrown : MemGrown s.mem s'.mem (pageIndex s.heap.heapCurrent))
    (hkept : HeapKept s.heap s'.heap s.heap.heapCurrent) : HeapOk L s' ts := by
  have hsame : ∀ i, i < pageIndex s.heap.heapCurrent →
      s'.mem.kernelPageTable i = s.mem.kernelPageTable i := by
    intro i hi
    rcases hgrown.maps i with h | ⟨hlo, -, -⟩
    · exact h
    · omega
  refine ⟨hok.shape.kept hkept, hkept.live ▸ hok.live, hok.room, hkept.heapCurrent ▸ hok.aligned,
    ⟨hgrown.startFrame ▸ hok.window.1, hgrown.totalFrames ▸ hok.window.2⟩, ?_, ?_⟩ <;>
    rw [hkept.heapCurrent]
  · intro i hlo hhi
    obtain ⟨f, hf, hi⟩ := hok.mapped i hlo hhi
    exact ⟨f, hgrown.keeps f hf, (hsame i hhi).trans hi⟩
  · intro i j hilo hihi hjlo hjhi heq
    rw [hsame i hihi, hsame j hjhi] at heq
    exact hok.distinct i j hilo hihi hjlo hjhi heq

/-- The heap ends in the kernel's part, behind its start. -/
theorem HeapOk.current_lo (hok : HeapOk L s ts) :
    0xC0000000 ≤ s.heap.heapCurrent ∧ L.heapStart ≤ s.heap.heapCurrent := by
  have := hok.shape.tiled.le
  have := L.heapStart_bounds.1
  omega

/-- The search has a place to start. -/
theorem HeapOk.freep_ne (hok : HeapOk L s ts) : s.heap.freep ≠ 0 := by
  have hbase := L.base_lo
  rcases List.mem_cons.1 hok.shape.freep_mem with heq | hmem
  · omega
  · have := (hok.shape.tiled.openAddrs_bounds hmem).1
    have := L.heapStart_bounds.1
    omega

/-- A successful growth gives the heap with the new pages released. -/
theorem HeapOk.grown (hok : HeapOk L s ts) {k : Nat} (hg : Grown L s s' ts k) :
    HeapOk L s' (release ts ⟨s.heap.heapCurrent, 4096 * k, some 0⟩ []) ∧
      ownedTiles (release ts ⟨s.heap.heapCurrent, 4096 * k, some 0⟩ []) = ownedTiles ts ∧
      s'.heap.live = s.heap.live ∧
      MemGrown s.mem s'.mem (pageIndex s.heap.heapCurrent) ∧
      s'.mem.pfa.freeCount + k = s.mem.pfa.freeCount := by
  obtain ⟨s₁, hb, hmem⟩ := hg.backed
  have hcur := hok.current_lo
  have halign := hok.aligned
  have hfits := hg.fits
  have howned : ownedTiles (release ts ⟨s.heap.heapCurrent, 4096 * k, some 0⟩ []) =
      ownedTiles ts := by
    rw [ownedTiles_release]
    simp [ownedTiles]
  have hlive : s'.heap.live = s.heap.live := by
    rw [hg.live, List.filter_eq_self]
    intro b hbm
    obtain ⟨t, ht, rfl⟩ := List.mem_map.1 (hok.live.mem_iff.1 hbm)
    have hne : t.addr ≠ s.heap.heapCurrent := by
      have := hok.shape.tiled.bounds (mem_ownedTiles.1 ht).1
      omega
    simpa [liveEntry] using hne
  have hend : pageIndex (s.heap.heapCurrent + 4096 * k) = pageIndex s.heap.heapCurrent + k :=
    pageIndex_add hcur.1 halign (by omega)
  have hold : ∀ i, i < pageIndex s.heap.heapCurrent →
      s'.mem.kernelPageTable i = s.mem.kernelPageTable i := by
    intro i hi
    rw [hmem]
    rcases hb.grown.maps i with h | ⟨hlo, -, -⟩
    · exact h
    · omega
  have hnew : ∀ i, pageIndex s.heap.heapCurrent ≤ i → i < pageIndex s.heap.heapCurrent + k →
      ∃ f, s.mem.pfa.Free f ∧ s'.mem.pfa.used f = true ∧ s'.mem.kernelPageTable i = 4096 * f + 3 := by
    intro i hlo hhi
    obtain ⟨f, hf, hfu, hfm⟩ := hb.pages (i - pageIndex s.heap.heapCurrent) (by omega)
    rw [Nat.add_sub_cancel' hlo] at hfm
    exact ⟨f, hf, hmem ▸ hfu, hmem ▸ hfm⟩
  refine ⟨⟨hg.shape, ?_, ?_, ?_, ?_, ?_, ?_⟩, howned, hlive, hmem ▸ hb.grown, hmem ▸ hb.count⟩
  · rw [hlive, howned]
    exact hok.live
  · intro t ht n hn
    have hto : t ∈ ownedTiles (release ts ⟨s.heap.heapCurrent, 4096 * k, some 0⟩ []) :=
      mem_ownedTiles.2 ⟨ht, by simp [hn]⟩
    rw [howned] at hto
    exact hok.room t (mem_ownedTiles.1 hto).1 n hn
  · rw [hg.current]
    omega
  · rw [hmem]
    exact ⟨hb.grown.startFrame ▸ hok.window.1, hb.grown.totalFrames ▸ hok.window.2⟩
  · rw [hg.current, hend]
    intro i hlo hhi
    by_cases hi : i < pageIndex s.heap.heapCurrent
    · obtain ⟨f, hf, hfm⟩ := hok.mapped i hlo hi
      exact ⟨f, hmem ▸ hb.grown.keeps f hf, (hold i hi).trans hfm⟩
    · obtain ⟨f, -, hf⟩ := hnew i (by omega) hhi
      exact ⟨f, hf⟩
  · rw [hg.current, hend]
    -- An old page shows a used frame and a new page a frame that was free.
    have hmixed : ∀ i j, pageIndex L.heapStart ≤ i → i < pageIndex s.heap.heapCurrent →
        pageIndex s.heap.heapCurrent ≤ j → j < pageIndex s.heap.heapCurrent + k →
        s'.mem.kernelPageTable i ≠ s'.mem.kernelPageTable j := by
      intro i j hilo hihi hjlo hjhi heq
      obtain ⟨f, hf, hfm⟩ := hok.mapped i hilo hihi
      obtain ⟨g, hg, -, hgm⟩ := hnew j hjlo hjhi
      rw [hold i hihi, hfm, hgm] at heq
      have hfg : f = g := by omega
      rw [hfg, hg.2.2] at hf
      cases hf
    intro i j hilo hihi hjlo hjhi heq
    by_cases hi : i < pageIndex s.heap.heapCurrent <;> by_cases hj : j < pageIndex s.heap.heapCurrent
    · rw [hold i hi, hold j hj] at heq
      exact hok.distinct i j hilo hi hjlo hj heq
    · exact absurd heq (hmixed i j hilo hi (by omega) hjhi)
    · exact absurd heq.symm (hmixed j i hjlo hj (by omega) hihi)
    · have heq' := heq
      rw [hmem, ← Nat.add_sub_cancel' (show pageIndex s.heap.heapCurrent ≤ i by omega),
        ← Nat.add_sub_cancel' (show pageIndex s.heap.heapCurrent ≤ j by omega)] at heq'
      have := hb.distinct _ _ (by omega) (by omega) heq'
      omega

/-- The units of a request hold the request and a header. -/
theorem unitsFor_bounds {n : Nat} (hn : n ≤ 0x3FF000) :
    0 < unitsFor n ∧ n + 8 ≤ 8 * unitsFor n ∧ unitsFor n ≤ 2 ^ 20 := by
  simp only [unitsFor, u32]
  omega

/-- What a call that returns a block establishes. -/
structure Allocated (L : Layout) (s s' : Store) (ts : List (Tile Nat)) (n ptr : Nat)
    (ts' : List (Tile Nat)) (u : Tile Nat) : Prop where
  ok : HeapOk L s' ts'
  mem : u ∈ ts'
  owner : u.owner = some n
  ptr_eq : ptr = u.addr + 8
  owned : (ownedTiles ts').Perm (u :: ownedTiles ts)
  live : s'.heap.live = (ptr, n) :: s.heap.live
  payload : PayloadKept s.heap s'.heap ts ts'

/-- The successor of a node is an open block when it fits: the sentinel has size 0. -/
theorem HeapOk.open_of_node (hok : HeapOk L s ts) {nunits q : Nat} (hn : 0 < nunits)
    (hq : q ∈ L.base :: openAddrs ts) (hfit : nunits ≤ s.heap.size (s.heap.next q)) :
    ∃ t ∈ ts, t.owner = none ∧ t.addr = s.heap.next q ∧ 8 * nunits ≤ t.len := by
  rcases List.mem_cons.1 (hok.shape.ring.next_mem hq) with hbase | hmem
  · rw [hbase, hok.shape.base_size] at hfit
    omega
  · obtain ⟨t, ht, hto, hta⟩ := mem_openAddrs.1 hmem
    have hunits := hok.shape.units t ht
    rw [hta] at hunits
    exact ⟨t, ht, hto, hta, by omega⟩

/-- Finishing at a fitting node of the free list. -/
theorem HeapOk.finish (hok : HeapOk L s ts) {n q : Nat} (hn : n ≤ 0x3FF000)
    (hq : q ∈ L.base :: openAddrs ts) (hfit : unitsFor n ≤ s.heap.size (s.heap.next q)) :
    ∃ ptr s' ts' u, s.finish n (unitsFor n) q (s.heap.next q) = (ptr, s') ∧ s'.mem = s.mem ∧
      s'.heap.heapCurrent = s.heap.heapCurrent ∧
      (∀ l, 0 < l →
        (OpenFits ts' l ↔ OpenFitsBeside ts (s.heap.next q) (8 * unitsFor n) l)) ∧
      Allocated L s s' ts n ptr ts' u := by
  have hunits := unitsFor_bounds hn
  obtain ⟨t, ht, hto, hta, -⟩ := hok.open_of_node hunits.1 hq hfit
  obtain ⟨pre, post, rfl⟩ := List.append_of_mem ht
  rw [← hta] at hfit ⊢
  have htake := hok.shape.takeBlock hto hq hta.symm hunits.1 hfit n
    ((Heap.headerAt (s.heap.takeBlock (unitsFor n) q t.addr).1 1, n) ::
      (s.heap.takeBlock (unitsFor n) q t.addr).2.live)
  obtain ⟨u, ts', hu, huo, hul, hleft, htaken⟩ := htake
  have hub := htaken.shape.bounds htaken.mem
  have hptr : Heap.headerAt u.addr 1 = u.addr + 8 := by
    rw [Heap.headerAt, Heap.u32_of_lt (by omega)]
  have hlive : (s.heap.takeBlock (unitsFor n) q t.addr).2.live = s.heap.live := by
    unfold Heap.takeBlock
    split <;> rfl
  have howned : ownedTiles (pre ++ t :: post) = ownedTiles pre ++ ownedTiles post := by
    simp [ownedTiles, hto]
  have hperm : (ownedTiles ts').Perm (u :: ownedTiles (pre ++ t :: post)) := by
    rw [htaken.owned, howned]
    exact List.perm_middle
  have hentry : liveEntry u = (u.addr + 8, n) := by
    simp [liveEntry, huo]
  rw [hu, hptr, hlive] at htaken
  simp only [Store.finish, hu, hptr, hlive]
  refine ⟨_, _, ts', u, rfl, rfl, htaken.current, hleft,
    ⟨htaken.shape, ?_, ?_, ?_, hok.window, ?_, ?_⟩, htaken.mem, huo, rfl, hperm, rfl, ?_⟩
  · refine List.Perm.trans ?_ (hperm.map liveEntry).symm
    rw [List.map_cons, hentry]
    exact hok.live.cons _
  · intro x hx m hm
    have hxo : x ∈ ownedTiles ts' := mem_ownedTiles.2 ⟨hx, by simp [hm]⟩
    rcases List.mem_cons.1 (hperm.mem_iff.1 hxo) with rfl | hxo
    · rw [huo] at hm
      cases hm
      omega
    · exact hok.room x (mem_ownedTiles.1 hxo).1 m hm
  · rw [htaken.current]
    exact hok.aligned
  · rw [htaken.current]
    exact hok.mapped
  · rw [htaken.current]
    exact hok.distinct
  · intro x _ hx y hlo hhi
    exact htaken.same y (payload_outside htaken.shape.tiled
      (fun z hz => (htaken.shape.bounds hz).2.1) hx hlo hhi)

/-- The first lap of the search, from {lit}`freep` around the whole free list. -/
theorem HeapShape.lap (hs : HeapShape L s.heap ts) (nbytes nunits : Nat) {fuel : Nat}
    (hfuel : 2 ^ 20 ≤ fuel) :
    (∃ q ∈ L.base :: openAddrs ts, nunits ≤ s.heap.size (s.heap.next q) ∧
        seek s.heap.next (fun p => nunits ≤ s.heap.size p) fuel (s.heap.next s.heap.freep) =
          some (s.heap.next q) ∧
        Store.kmallocLoop nbytes nunits fuel s.heap.freep (s.heap.next s.heap.freep) s =
          s.finish nbytes nunits q (s.heap.next q)) ∨
      ((∀ x ∈ L.base :: openAddrs ts, s.heap.size x < nunits) ∧ ∃ rest, fuel ≤ rest + 2 ^ 20 ∧
        Store.kmallocLoop nbytes nunits fuel s.heap.freep (s.heap.next s.heap.freep) s =
          if (s.morecore nunits).1 = 0 then (0, (s.morecore nunits).2)
          else Store.kmallocLoop nbytes nunits rest (s.morecore nunits).1
            ((s.morecore nunits).2.heap.next (s.morecore nunits).1) (s.morecore nunits).2) := by
  have hlen := hs.length_le
  obtain ⟨l, hlinked, hnot, hcount, hmem⟩ := hs.ring.exists_lap hs.nodup hs.freep_mem
  rcases kmallocLoop_lap nbytes nunits hlinked hnot (show l.length < fuel by omega) with
    ⟨q, hq, hfit, hseek, hres⟩ | ⟨hsmall, hres⟩
  · exact .inl ⟨q, (hmem q).1 hq, hfit, hseek, hres⟩
  · refine .inr ⟨fun x hx => hsmall x ?_, _, by omega, hres⟩
    rcases List.mem_cons.1 ((hmem x).2 hx) with rfl | hx
    · simp
    · simp [hx]

/-- How a call gets its block.  The first fitting block gives up its last headers, or, when
there is none, the heap grows and the new pages do. -/
inductive Obtained (s s' : Store) (ts ts' : List (Tile Nat)) (nunits : Nat) : Prop
  | fitting (hcur : s'.heap.heapCurrent = s.heap.heapCurrent) (hfits : OpenFits ts (8 * nunits))
      {p : Nat} (hfirst : s.heap.fitting nunits = some p)
      (hleft : ∀ l, 0 < l → (OpenFits ts' l ↔ OpenFitsBeside ts p (8 * nunits) l)) :
      Obtained s s' ts ts' nunits
  | grown (hcur : s'.heap.heapCurrent = s.heap.heapCurrent + 4096 * corePages nunits)
      (hnone : ¬ OpenFits ts (8 * nunits)) (hleft : ¬ OpenFits ts' (4096 * corePages nunits)) :
      Obtained s s' ts ts' nunits

/-- What one call of {lit}`kmalloc` can do: return a block, or fail for want of
room or of frames.  The heap grows only when no free block fits. -/
inductive KmallocResult (L : Layout) (s : Store) (ts : List (Tile Nat)) (n : Nat) :
    Nat × Store → Prop
  | block {ptr : Nat} {s' : Store} {ts' : List (Tile Nat)} {u : Tile Nat}
      (halloc : Allocated L s s' ts n ptr ts' u)
      (hmem : MemGrown s.mem s'.mem (pageIndex s.heap.heapCurrent))
      (hcount : 4096 * s'.mem.pfa.freeCount + s'.heap.heapCurrent =
        4096 * s.mem.pfa.freeCount + s.heap.heapCurrent)
      (hcur : s.heap.heapCurrent ≤ s'.heap.heapCurrent ∧
        s'.heap.heapCurrent ≤ s.heap.heapCurrent + 4096 * corePages (unitsFor n))
      (hgot : Obtained s s' ts ts' (unitsFor n)) :
      KmallocResult L s ts n (ptr, s')
  | fail {s' : Store} (hok : HeapOk L s' ts)
      (hmem : MemGrown s.mem s'.mem (pageIndex s.heap.heapCurrent))
      (hkept : HeapKept s.heap s'.heap s.heap.heapCurrent)
      (hwhy : GrowthFails s s' (corePages (unitsFor n)))
      (hnone : ∀ t ∈ ts, t.owner = none → t.len < 8 * unitsFor n) :
      KmallocResult L s ts n (0, s')

/-- After a growth some node of the free list has the size that was asked for. -/
theorem Grown.exists_fit {nunits : Nat} (hg : Grown L s s' ts (corePages nunits))
    (hs : HeapShape L s.heap ts) :
    ∃ x ∈ L.base :: openAddrs
      (release ts ⟨s.heap.heapCurrent, 4096 * corePages nunits, some 0⟩ []),
      nunits ≤ s'.heap.size x := by
  have hpages := corePages_bounds nunits
  have htiled := hs.tiled.snoc (k := 4096 * corePages nunits) (by omega) (some 0)
  obtain ⟨v, hv, hvo, hvlo, hvhi⟩ := exists_cover_release htiled
  refine ⟨v.addr, List.mem_cons_of_mem _ (mem_openAddrs.2 ⟨v, hv, hvo, rfl⟩), ?_⟩
  have := hg.shape.units v hv
  simp only at hvlo hvhi
  omega

/-- How the search for {lit}`nunits` headers ends: at a fitting block, at one of the heap that
has grown because no block fitted, or with the failure of that growth. -/
inductive SearchResult (L : Layout) (s : Store) (ts : List (Tile Nat)) (nbytes nunits : Nat) :
    Nat × Store → Prop
  | found {q : Nat} (hq : q ∈ L.base :: openAddrs ts)
      (hfit : nunits ≤ s.heap.size (s.heap.next q))
      (hfirst : s.heap.fitting nunits = some (s.heap.next q)) :
      SearchResult L s ts nbytes nunits (s.finish nbytes nunits q (s.heap.next q))
  | grown {s₁ : Store} {q : Nat} (hgrown : Grown L s s₁ ts (corePages nunits))
      (hq : q ∈ L.base :: openAddrs
        (release ts ⟨s.heap.heapCurrent, 4096 * corePages nunits, some 0⟩ []))
      (hfit : nunits ≤ s₁.heap.size (s₁.heap.next q))
      (hnone : ∀ t ∈ ts, t.owner = none → t.len < 8 * nunits) :
      SearchResult L s ts nbytes nunits (s₁.finish nbytes nunits q (s₁.heap.next q))
  | failed {s' : Store} (hmem : MemGrown s.mem s'.mem (pageIndex s.heap.heapCurrent))
      (hkept : HeapKept s.heap s'.heap s.heap.heapCurrent)
      (hwhy : GrowthFails s s' (corePages nunits))
      (hnone : ∀ t ∈ ts, t.owner = none → t.len < 8 * nunits) :
      SearchResult L s ts nbytes nunits (0, s')

/-- Where every node of the free list is too small, every open block is. -/
theorem HeapShape.open_small {h : Heap} (hs : HeapShape L h ts) {nunits : Nat}
    (hsmall : ∀ x ∈ L.base :: openAddrs ts, h.size x < nunits) :
    ∀ t ∈ ts, t.owner = none → t.len < 8 * nunits := by
  intro t ht hto
  have hsize := hsmall t.addr (List.mem_cons_of_mem _ (mem_openAddrs.2 ⟨t, ht, hto, rfl⟩))
  have hlen := hs.units t ht
  omega

/-- The search of {lit}`kmalloc` on a heap that has its list. -/
theorem HeapOk.search (hok : HeapOk L s ts) (nbytes : Nat) {nunits : Nat} (hn : nunits ≤ 2 ^ 20) :
    SearchResult L s ts nbytes nunits (Store.kmallocLoop nbytes nunits searchFuel s.heap.freep
      (s.heap.next s.heap.freep) s) := by
  have hfuel : searchFuel = 2 ^ 32 := by
    rw [searchFuel]
  rcases hok.shape.lap nbytes nunits (show 2 ^ 20 ≤ searchFuel by rw [hfuel]; norm_num) with
    ⟨q, hq, hfit, hfirst, hres⟩ | ⟨hsmall, rest, hrest, hres⟩
  · rw [hres]
    exact .found hq hfit hfirst
  · rw [hres]
    have hnone := hok.shape.open_small hsmall
    rcases hok.shape.morecore hok.window hok.aligned hn with
      ⟨s₁, hcore, hgrown⟩ | ⟨s₁, hcore, hgrown, hkept, hwhy⟩
    · obtain ⟨hok₁, -⟩ := hok.grown hgrown
      simp only [hcore]
      rw [if_neg hok₁.freep_ne]
      -- On the second lap the new pages are a block that fits.
      rcases hok₁.shape.lap nbytes nunits
          (show 2 ^ 20 ≤ rest by rw [hfuel] at hrest; omega) with ⟨q, hq, hfit, -, hres₁⟩ |
            ⟨hsmall₁, -⟩
      · rw [hres₁]
        exact .grown hgrown hq hfit hnone
      · obtain ⟨x, hx, hfit⟩ := hgrown.exists_fit hok.shape
        have := hsmall₁ x hx
        omega
    · simp only [hcore, if_true]
      exact .failed hgrown hkept hwhy hnone

/-- A heap that has grown for a block keeps less than the new pages in any open block. -/
theorem HeapOk.grown_small {v : Tile Nat} {nunits q : Nat} (hok : HeapOk L s (release ts v []))
    (hn : 0 < nunits) (hq : q ∈ L.base :: openAddrs (release ts v []))
    (hfit : nunits ≤ s.heap.size (s.heap.next q)) (hnone : ¬ OpenFits ts (8 * nunits))
    (hlen : 8 * nunits ≤ v.len) :
    ¬ OpenFitsBeside (release ts v []) (s.heap.next q) (8 * nunits) v.len := by
  obtain ⟨w, hw, hopen⟩ := exists_open_release v (show 0 < 8 * nunits by omega) hnone
  rw [not_openFits] at hnone
  -- Only the block with the new pages is large enough.
  have hlarge : ∀ x ∈ release ts v [], x.owner = none → 8 * nunits ≤ x.len → x = w := by
    intro x hx hxo hxl
    refine (hopen x hx hxo).resolve_right fun hts => ?_
    have := hnone x hts hxo
    omega
  obtain ⟨t, ht, hto, hta, htl⟩ := hok.open_of_node hn hq hfit
  rintro ⟨x, hx, hxo, hxl⟩
  have hxw := hlarge x hx hxo (by omega)
  have htw := hlarge t ht hto htl
  rw [if_pos (by rw [hxw, ← htw, hta]), hxw] at hxl
  omega

/-- The search of {lit}`kmalloc` for a request of admitted size. -/
theorem HeapOk.kmallocLoop (hok : HeapOk L s ts) {n : Nat} (hn : n ≤ 0x3FF000) :
    KmallocResult L s ts n (Store.kmallocLoop n (unitsFor n) searchFuel s.heap.freep
      (s.heap.next s.heap.freep) s) := by
  have hsearch := hok.search n (unitsFor_bounds hn).2.2
  generalize Store.kmallocLoop n (unitsFor n) searchFuel s.heap.freep (s.heap.next s.heap.freep) s =
    r at hsearch
  cases hsearch with
  | found hq hfit hfirst =>
      obtain ⟨ptr, s', ts', u, hfinish, hmem, hcur, hleft, halloc⟩ := hok.finish hn hq hfit
      rw [hfinish]
      have hfits : OpenFits ts (8 * unitsFor n) := by
        obtain ⟨t, ht, hto, -, hlen⟩ := hok.open_of_node (unitsFor_bounds hn).1 hq hfit
        exact ⟨t, ht, hto, hlen⟩
      refine .block halloc ?_ ?_ ?_ (.fitting hcur hfits hfirst hleft)
      · rw [hmem]
        exact MemGrown.refl _ _
      · rw [hmem, hcur]
      · rw [hcur]
        omega
  | @grown s₁ q hgrown hq hfit hnone =>
      obtain ⟨hok₁, howned, hlive, hmem₁, hcount⟩ := hok.grown hgrown
      obtain ⟨ptr, s', ts', u, hfinish, hmem, hcur, hleft, halloc⟩ := hok₁.finish hn hq hfit
      rw [hfinish]
      have hpages := corePages_bounds (unitsFor n)
      refine .block ⟨halloc.ok, halloc.mem, halloc.owner, halloc.ptr_eq, ?_, ?_,
        ?_⟩ ?_ ?_ ?_ (.grown (hcur.trans hgrown.current) (not_openFits.2 hnone) ?_)
      · rw [← howned]
        exact halloc.owned
      · rw [← hlive]
        exact halloc.live
      · intro t ht htts x hlo hhi
        have htb := hok.shape.tiled.bounds (mem_ownedTiles.1 ht).1
        refine (halloc.payload t (by rw [howned]; exact ht) htts x hlo hhi).trans ?_
        exact hgrown.bytes x (by omega) (payload_outside hok.shape.tiled
          (fun z hz => (hok.shape.bounds hz).2.1) (mem_ownedTiles.1 ht).1 hlo hhi)
      · rw [hmem]
        exact hmem₁
      · rw [hmem, hcur, hgrown.current]
        omega
      · rw [hcur, hgrown.current]
        omega
      · rw [hleft _ (by omega)]
        exact hok₁.grown_small (unitsFor_bounds hn).1 hq hfit (not_openFits.2 hnone) hpages.2
  | failed hmem hkept hwhy hnone => exact .fail (hok.kept hmem hkept) hmem hkept hwhy hnone

/-- The heap before its first allocation. -/
structure HeapFresh (L : Layout) (s : Store) : Prop where
  freep : s.heap.freep = 0
  current : s.heap.heapCurrent = L.heapStart
  heapMax : s.heap.heapMax = 0xC03FF000
  hung : s.heap.hung = false
  live : s.heap.live = []
  window : PfaWindow s.mem.pfa

/-- The heap is fresh or has its list. -/
def HeapReady (L : Layout) (s : Store) (ts : List (Tile Nat)) : Prop :=
  HeapOk L s ts ∨ (HeapFresh L s ∧ ts = [])

/-- The first call of {lit}`kmalloc` puts the heap in order. -/
theorem HeapReady.prepared (hr : HeapReady L s ts) : HeapOk L ⟨s.mem, s.heap.prepared L⟩ ts := by
  rcases hr with hok | ⟨hf, rfl⟩
  · rw [Heap.prepared, if_neg hok.freep_ne]
    exact hok
  · have hstart := L.heapStart_bounds
    have hbase := L.base_hi
    have himage := L.image_hi
    have hspread : Heap.Spread [L.base] := by
      intro a ha b hb
      exact .inl ((List.mem_singleton.1 hb).trans (List.mem_singleton.1 ha).symm)
    have hmem : L.base ∈ [L.base] := List.mem_singleton_self _
    have hnext : ((s.heap.setNext L.base L.base).setSize L.base 0).next L.base = L.base := by
      rw [Heap.next_setSize _ hspread hmem hmem, Heap.next_setNext _ hspread hmem hmem (by omega),
        Function.update_self]
    have hsize : ((s.heap.setNext L.base L.base).setSize L.base 0).size L.base = 0 := by
      rw [Heap.size_setSize _ hspread hmem hmem (by norm_num), Function.update_self]
    rw [Heap.prepared, if_pos hf.freep]
    refine ⟨⟨hf.current.symm, by simp, ?_, hsize, by simp, List.isChain_nil, ?_, hf.heapMax, hf.hung⟩,
      ?_, by simp, ?_, hf.window, ?_, ?_⟩
    · exact List.isChain_cons_cons.2 ⟨hnext, List.isChain_singleton _⟩
    · show s.heap.heapCurrent ≤ _
      rw [hf.current]
      omega
    · show s.heap.live.Perm _
      rw [hf.live]
      exact List.Perm.nil
    · show s.heap.heapCurrent % 4096 = 0
      rw [hf.current]
      exact hstart.2.2
    · show ∀ i, _ → i < pageIndex s.heap.heapCurrent → _
      rw [hf.current]
      intro i hlo hhi
      omega
    · show ∀ i j, _ → i < pageIndex s.heap.heapCurrent → _ → j < pageIndex s.heap.heapCurrent → _
      rw [hf.current]
      intro i j hlo hhi
      omega

/-- Putting the heap in order adds no page and no block. -/
theorem prepared_frame (L : Layout) (h : Heap) :
    (h.prepared L).heapCurrent = h.heapCurrent ∧ (h.prepared L).live = h.live := by
  unfold Heap.prepared
  split <;> exact ⟨rfl, rfl⟩

/-- What one call of {lit}`kmalloc` can do. -/
theorem kmalloc_spec (hr : HeapReady L s ts) {n : Nat} (hpos : 1 ≤ n) (hn : n ≤ 0x3FF000) :
    KmallocResult L ⟨s.mem, s.heap.prepared L⟩ ts n (s.kmalloc L n) := by
  have hloop := hr.prepared.kmallocLoop hn
  rw [Store.kmalloc, if_neg (by omega)]
  exact hloop

/-- What one call of {lit}`kfree` on a live pointer does. -/
theorem HeapOk.kfree (hok : HeapOk L s ts) {pre post : List (Tile Nat)} {t : Tile Nat} {n : Nat}
    (hts : ts = pre ++ t :: post) (ht : t.owner = some n) :
    HeapOk L (s.kfree (t.addr + 8)) (release pre t post) ∧
      (ownedTiles ts).Perm (t :: ownedTiles (release pre t post)) ∧
      PayloadKept s.heap (s.kfree (t.addr + 8)).heap ts (release pre t post) := by
  subst hts
  obtain ⟨hshape, hsame⟩ := hok.shape.kfree ht
  obtain ⟨hcur, hlive⟩ := hok.shape.kfree_frame ht
  have howned : ownedTiles (release pre t post) = ownedTiles pre ++ ownedTiles post :=
    ownedTiles_release pre t post
  have hperm : (ownedTiles (pre ++ t :: post)).Perm (t :: ownedTiles (release pre t post)) := by
    rw [howned, ownedTiles_append, show ownedTiles (t :: post) = t :: ownedTiles post by
      simp [ownedTiles, ht]]
    exact List.perm_middle
  have hother : ∀ u ∈ ownedTiles (release pre t post), u ∈ pre ++ post := by
    intro u hu
    rw [howned] at hu
    simp only [List.mem_append, mem_ownedTiles] at hu ⊢
    tauto
  -- Another owned block is at another address.
  have hne : ∀ u ∈ ownedTiles (release pre t post), u.addr ≠ t.addr := by
    intro u hu
    obtain ⟨hpre, hlen, hpost⟩ := hok.shape.tiled.around
    rcases List.mem_append.1 (hother u hu) with hu | hu
    · have := hpre.bounds hu
      omega
    · have := hpost.bounds hu
      omega
  rw [show s.kfree (t.addr + 8) = ⟨s.mem, s.heap.kfree (t.addr + 8)⟩ from rfl]
  generalize s.heap.kfree (t.addr + 8) = g at *
  refine ⟨⟨hshape, ?_, ?_, ?_, hok.window, ?_, ?_⟩, hperm, ?_⟩
  · rw [hlive]
    refine ((hok.live.trans (hperm.map liveEntry)).filter _).trans (List.Perm.of_eq ?_)
    rw [List.map_cons, List.filter_cons_of_neg (by simp [liveEntry]), List.filter_eq_self]
    intro b hb
    obtain ⟨u, hu, rfl⟩ := List.mem_map.1 hb
    simpa [liveEntry] using hne u hu
  · intro u hu m hm
    have hmem := hother u (mem_ownedTiles.2 ⟨hu, by simp [hm]⟩)
    refine hok.room u ?_ m hm
    simp only [List.mem_append, List.mem_cons] at hmem ⊢
    tauto
  · rw [hcur]
    exact hok.aligned
  · rw [hcur]
    exact hok.mapped
  · rw [hcur]
    exact hok.distinct
  · intro u hu _ x hlo hhi
    exact hsame x (payload_outside hok.shape.tiled (fun z hz => (hok.shape.bounds hz).2.1)
      (mem_ownedTiles.1 hu).1 hlo hhi)

end HeapOk

end SoKernel
