import SoKernel.Memory.HeapSafety

/-!
# The free list

The blocks of the free list are read off the heap by following the
{lit}`next` fields from the sentinel for one lap.  Over every run they are the
open blocks of the tiling, so they are determined by the live blocks and the end
of the heap, and both search loops of the source end.

Main results:

- Theorem {lit}`HeapOk.freeBlocks_eq`: the free list is the list of open blocks.
- Theorem {lit}`free_list_coalesced`: no two free blocks are adjacent, and the
  order of the calls does not matter.
- Theorem {lit}`heap_searches_end`: the searches end within a lap of the list and
  find what is there.
-/

namespace SoKernel

variable {L : Layout} {s s₀ s₁ s' : Store} {ts ts' : List (Tile Nat)} {live live' : List (Nat × Nat)}

/-! ## Reading the list -/

/-- The blocks of the free list from the sentinel on, each with its size in headers.  Before
the first call there is no list. -/
def Heap.freeBlocks (h : Heap) (L : Layout) : List (Nat × Nat) :=
  if h.freep = 0 then []
  else (lap h.next L.base searchFuel (h.next L.base)).map fun p => (p, h.size p)

theorem HeapOk.freeBlocks_eq (hok : HeapOk L s ts) :
    s.heap.freeBlocks L = (openBlocks ts).map fun b => (b.1, b.2 / 8) := by
  have hlen := hok.shape.length_le
  have hlap : lap s.heap.next L.base searchFuel (s.heap.next L.base) = openAddrs ts := by
    refine hok.shape.ring.lap_eq hok.shape.nodup ?_
    rw [List.length_cons] at hlen
    rw [searchFuel]
    omega
  rw [Heap.freeBlocks, if_neg hok.freep_ne, hlap, ← openBlocks_map_fst, List.map_map]
  refine List.map_congr_left fun b hb => ?_
  obtain ⟨t, ht, -, rfl⟩ := mem_openBlocks.1 hb
  have hunits := hok.shape.units t ht
  simp only [Function.comp_apply, Prod.mk.injEq, true_and]
  omega

theorem HeapOk.mem_freeBlocks (hok : HeapOk L s ts) {b : Nat × Nat} :
    b ∈ s.heap.freeBlocks L ↔ ∃ t ∈ ts, t.owner = none ∧ t.addr = b.1 ∧ t.len = 8 * b.2 := by
  rw [hok.freeBlocks_eq, List.mem_map]
  constructor
  · rintro ⟨c, hc, rfl⟩
    obtain ⟨t, ht, hto, rfl⟩ := mem_openBlocks.1 hc
    have := hok.shape.units t ht
    exact ⟨t, ht, hto, rfl, by simp only; omega⟩
  · rintro ⟨t, ht, hto, haddr, hlen⟩
    refine ⟨(t.addr, t.len), mem_openBlocks.2 ⟨t, ht, hto, rfl⟩, ?_⟩
    exact Prod.ext haddr (by simp only; omega)

theorem HeapOk.freeBlocks_fst (hok : HeapOk L s ts) :
    (s.heap.freeBlocks L).map Prod.fst = openAddrs ts := by
  rw [hok.freeBlocks_eq, List.map_map, ← openBlocks_map_fst]
  exact List.map_congr_left fun _ _ => rfl

/-- Before the first call there is no free block. -/
theorem HeapFresh.freeBlocks (hf : HeapFresh L s) : s.heap.freeBlocks L = [] := by
  rw [Heap.freeBlocks, if_pos hf.freep]

/-! ## Coalescing -/

/-- The memory of a live block: its header and its size in headers. -/
def blockOf (b : Nat × Nat) : Nat × Nat :=
  (b.1 - 8, unitsFor b.2)

/-- The live blocks are the owned blocks of the tiling. -/
theorem HeapOk.mem_blocks (hok : HeapOk L s ts) (t : Tile Unit) (hto : t.owner.isSome) :
    t ∈ ts.map Tile.anonymous ↔ ∃ c ∈ s.heap.live.map blockOf, t = ⟨c.1, 8 * c.2, some ()⟩ := by
  constructor
  · intro ht
    obtain ⟨u, hu, rfl⟩ := List.mem_map.1 ht
    obtain ⟨n, hn⟩ : ∃ n, u.owner = some n := by
      cases ho : u.owner with
      | none => simp [Tile.anonymous, ho] at hto
      | some n => exact ⟨n, rfl⟩
    have hmem : (u.addr + 8, n) ∈ s.heap.live := by
      rw [hok.live.mem_iff, List.mem_map]
      exact ⟨u, mem_ownedTiles.2 ⟨hu, by simp [hn]⟩, by simp [liveEntry, hn]⟩
    refine ⟨_, List.mem_map_of_mem hmem, ?_⟩
    simp [Tile.anonymous, blockOf, hn, (hok.room u hu n hn).2]
  · rintro ⟨c, hc, rfl⟩
    obtain ⟨b, hb, rfl⟩ := List.mem_map.1 hc
    obtain ⟨u, hu, huo, hbu⟩ := hok.exists_tile hb
    refine List.mem_map.2 ⟨u, hu, ?_⟩
    simp [Tile.anonymous, blockOf, huo, hbu, (hok.room u hu b.2 huo).2]

/-- The free list is determined by the live blocks and the end of the heap. -/
theorem HeapOk.freeBlocks_unique (hok : HeapOk L s ts) (hok' : HeapOk L s' ts')
    (hblocks : ∀ c, c ∈ s.heap.live.map blockOf ↔ c ∈ s'.heap.live.map blockOf)
    (hend : s'.heap.heapCurrent = s.heap.heapCurrent) :
    s'.heap.freeBlocks L = s.heap.freeBlocks L := by
  have htiled := hok'.shape.tiled
  rw [hend] at htiled
  have heq : ts'.map Tile.anonymous = ts.map Tile.anonymous := by
    refine htiled.anonymous.unique hok.shape.tiled.anonymous hok'.shape.coalesced.anonymous
      hok.shape.coalesced.anonymous fun t ht => ?_
    rw [hok'.mem_blocks t ht, hok.mem_blocks t ht]
    simp only [hblocks]
  rw [hok'.freeBlocks_eq, hok.freeBlocks_eq, ← openBlocks_anonymous ts', heq, openBlocks_anonymous]

/-- Every pointer is live once. -/
theorem HeapOk.live_nodup (hok : HeapOk L s ts) : (s.heap.live.map Prod.fst).Nodup := by
  have hperm := hok.live.map Prod.fst
  rw [List.map_map] at hperm
  refine hperm.nodup_iff.2 (List.Nodup.map_on ?_ (hok.shape.tiled.nodup.filter _))
  intro t ht u hu heq
  refine hok.shape.tiled.eq_of_addr_eq (mem_ownedTiles.1 ht).1 (mem_ownedTiles.1 hu).1 ?_
  simpa [liveEntry] using heq

/-- Setting up the empty list adds no block. -/
theorem HeapReady.freeBlocks_prepared (hr : HeapReady L s ts) :
    (s.heap.prepared L).freeBlocks L = s.heap.freeBlocks L := by
  have hok := hr.prepared
  rcases hr with hok' | ⟨hf, rfl⟩
  · rw [Heap.prepared, if_neg hok'.freep_ne]
  · rw [hf.freeBlocks]
    exact hok.freeBlocks_eq

/-- Releasing the live blocks one by one is a run. -/
theorem HeapRun.kfree_all (h₀ : HeapFresh L s₀) {order : List (Nat × Nat)}
    (hrun : HeapRun L s₀ s live) (horder : order.Perm live) :
    HeapRun L s₀ (order.foldl (fun s b => s.kfree b.1) s) [] ∧
      (order.foldl (fun s b => s.kfree b.1) s).heap.heapCurrent = s.heap.heapCurrent := by
  induction order generalizing s live with
  | nil =>
      rw [List.nil_perm.1 horder] at hrun
      exact ⟨hrun, rfl⟩
  | cons b rest ih =>
      obtain ⟨rfl, ts, hr⟩ := hrun.ready h₀
      have hb : b ∈ s.heap.live := horder.subset List.mem_cons_self
      have hok := hr.ok_of_live hb
      obtain ⟨t, ht, hto, hbt⟩ := hok.exists_tile hb
      obtain ⟨pre, post, rfl⟩ := List.append_of_mem ht
      have hcur := (hok.shape.kfree_frame hto).1
      have hnodup : ((b :: rest).map Prod.fst).Nodup :=
        (horder.map Prod.fst).nodup_iff.2 hok.live_nodup
      have hrest : rest.Perm (s.heap.live.filter fun c => c.1 ≠ b.1) := by
        have hfilter := horder.filter fun c => decide (c.1 ≠ b.1)
        rw [List.filter_cons_of_neg (by simp), List.filter_eq_self.2] at hfilter
        · exact hfilter
        · intro c hc
          rw [List.map_cons, List.nodup_cons] at hnodup
          have hne : c.1 ≠ b.1 := fun heq => hnodup.1 (heq ▸ List.mem_map_of_mem hc)
          simp [hne]
      obtain ⟨hend, hsame⟩ := ih (.kfree b hrun hb) hrest
      refine ⟨hend, hsame.trans ?_⟩
      rw [hbt]
      exact hcur

/-- Free memory is coalesced: no two free blocks are adjacent, the free list is determined by
the live blocks and the end of the heap, and once every live block is released, in any order,
one free block covers the whole heap. -/
theorem free_list_coalesced (h₀ : HeapFresh L s₀) (hrun : HeapRun L s₀ s live) :
    (∀ b ∈ s.heap.freeBlocks L, ∀ c ∈ s.heap.freeBlocks L, b.1 + 8 * b.2 ≠ c.1) ∧
    (∀ s₁ s' live', HeapFresh L s₁ → HeapRun L s₁ s' live' →
      (∀ c, c ∈ live.map blockOf ↔ c ∈ live'.map blockOf) →
      s'.heap.heapCurrent = s.heap.heapCurrent → s'.heap.freeBlocks L = s.heap.freeBlocks L) ∧
    (∀ order : List (Nat × Nat), order.Perm live →
      live ≠ [] ∨ L.heapStart < s.heap.heapCurrent →
      (order.foldl (fun s b => s.kfree b.1) s).heap.freeBlocks L =
        [(L.heapStart, (s.heap.heapCurrent - L.heapStart) / 8)]) := by
  obtain ⟨rfl, ts, hr⟩ := hrun.ready h₀
  obtain ⟨hcur, hlive⟩ := prepared_frame L s.heap
  have hok := hr.prepared
  refine ⟨fun b hb c hc => ?_, fun s₁ s' live' h₁ hrun' hblocks hend => ?_,
    fun order horder hsome => ?_⟩
  · rw [← hr.freeBlocks_prepared] at hb hc
    obtain ⟨t, ht, hto, htb, htl⟩ := hok.mem_freeBlocks.1 hb
    obtain ⟨u, hu, huo, huc, -⟩ := hok.mem_freeBlocks.1 hc
    rw [← htb, ← htl, ← huc]
    exact hok.shape.tiled.not_adjacent hok.shape.coalesced ht hu hto huo
  · obtain ⟨rfl, ts', hr'⟩ := hrun'.ready h₁
    obtain ⟨hcur', hlive'⟩ := prepared_frame L s'.heap
    rw [← hr.freeBlocks_prepared, ← hr'.freeBlocks_prepared]
    refine hok.freeBlocks_unique hr'.prepared ?_ ?_
    · simpa only [hlive, hlive'] using hblocks
    · simpa only [hcur, hcur'] using hend
  · obtain ⟨hrun', hsame⟩ := hrun.kfree_all h₀ horder
    obtain ⟨hnone, ts', hr'⟩ := hrun'.ready h₀
    obtain ⟨hcur', hlive'⟩ := prepared_frame L (order.foldl (fun s b => s.kfree b.1) s).heap
    have hok' := hr'.prepared
    have hlt : L.heapStart < s.heap.heapCurrent := by
      rcases hsome with hne | hlt
      · obtain ⟨b, hb⟩ := List.exists_mem_of_ne_nil _ hne
        obtain ⟨t, ht, -, -⟩ := (hr.ok_of_live hb).exists_tile hb
        have := (hr.ok_of_live hb).shape.tiled.bounds ht
        omega
      · exact hlt
    -- No block is owned any more.
    have hopen : ∀ t ∈ ts', t.owner = none := by
      intro t ht
      cases ho : t.owner with
      | none => rfl
      | some n =>
          have hmem := hok'.live.mem_iff.2
            (List.mem_map_of_mem (mem_ownedTiles.2 ⟨ht, by simp [ho]⟩))
          rw [hlive', hnone] at hmem
          cases hmem
    have htiled := hok'.shape.tiled
    rw [hcur', hsame] at htiled
    rw [← hr'.freeBlocks_prepared, hok'.freeBlocks_eq,
      htiled.eq_singleton hok'.shape.coalesced hopen hlt]
    rfl

/-- With room and frames for it a request is met. -/
theorem HeapReady.kmalloc_ne_zero (hr : HeapReady L s ts) {n : Nat} (hpos : 1 ≤ n)
    (hn : n ≤ 0x3FF000)
    (hroom : s.heap.heapCurrent + 4096 * corePages (unitsFor n) ≤ 0xC03FF000)
    (hframes : corePages (unitsFor n) ≤ s.mem.pfa.freeCount) : (s.kmalloc L n).1 ≠ 0 := by
  have hspec := kmalloc_spec hr hpos hn
  have hcur := (prepared_frame L s.heap).1
  generalize s.kmalloc L n = r at hspec
  cases hspec with
  | block halloc => exact halloc.ptr_ne
  | fail hok hmem hkept hwhy hnone =>
      have hshort := hwhy.why
      simp only [hcur] at hshort
      omega

theorem sampleStore_frames : 2 ≤ sampleStore.mem.pfa.freeCount := by
  have heq : sampleStore.mem.pfa = Pfa.pfaInit 0x400000 0x4000000 0 0 := by rw [sampleStore]
  have hframes := Pfa.freeCount_pfaInit 0x400000 0x4000000 0 0
  have hstart : (Pfa.pfaInit 0x400000 0x4000000 0 0).startFrame = 1025 := by
    rw [Pfa.pfaInit_startFrame]
    decide
  have htotal : (Pfa.pfaInit 0x400000 0x4000000 0 0).totalFrames = 16384 := by
    rw [Pfa.pfaInit_totalFrames]
  rw [heq]
  omega

theorem sampleStore_kmalloc : (sampleStore.kmalloc sampleLayout 4096).1 ≠ 0 := by
  have htwo : corePages (unitsFor 4096) = 2 := by decide
  have hstart : sampleLayout.heapStart = 0xC0200000 := by decide
  refine HeapReady.kmalloc_ne_zero (.inr ⟨sampleStore_fresh, rfl⟩) (by norm_num) (by norm_num) ?_ ?_
  · rw [htwo, sampleStore_fresh.current, hstart]
    norm_num
  · rw [htwo]
    exact sampleStore_frames

/-- Releasing the only block of the sample heap. -/
theorem free_list_coalesced_one_block :
    ((sampleStore.kmalloc sampleLayout 4096).2.kfree
      (sampleStore.kmalloc sampleLayout 4096).1).heap.freeBlocks sampleLayout =
      [(sampleLayout.heapStart, ((sampleStore.kmalloc sampleLayout 4096).2.heap.heapCurrent -
        sampleLayout.heapStart) / 8)] := by
  have hstart : HeapRun sampleLayout sampleStore sampleStore [] := .start
  have hrun := hstart.kmalloc 4096 (by norm_num) (by norm_num)
  rw [if_neg sampleStore_kmalloc] at hrun
  have hall := (free_list_coalesced sampleStore_fresh hrun).2.2 _ (List.Perm.refl _)
    (.inl (List.cons_ne_nil _ _))
  rw [List.foldl_cons, List.foldl_nil] at hall
  exact hall

/-! ## The searches -/

/-- The search loop of {lit}`kmalloc` with the number of its calls of {lit}`morecore`. -/
def Store.kmallocCounted (nbytes nunits : Nat) : Nat → Nat → Nat → Store → Nat × Nat × Store
  | 0, _, _, s => (0, 0, { s with heap := { s.heap with hung := true } })
  | fuel + 1, prevp, p, s =>
      if s.heap.size p ≥ nunits then (0, s.finish nbytes nunits prevp p)
      else if p = s.heap.freep then
        let (q, s) := s.morecore nunits
        if q = 0 then (1, 0, s)
        else
          let (calls, result) := kmallocCounted nbytes nunits fuel q (s.heap.next q) s
          (calls + 1, result)
      else kmallocCounted nbytes nunits fuel p (s.heap.next p) s

/-- Counting changes nothing. -/
theorem kmallocCounted_snd (nbytes nunits fuel prevp p : Nat) (s : Store) :
    (s.kmallocCounted nbytes nunits fuel prevp p).2 =
      Store.kmallocLoop nbytes nunits fuel prevp p s := by
  induction fuel generalizing prevp p s with
  | zero => rfl
  | succ fuel ih =>
      simp only [Store.kmallocCounted, Store.kmallocLoop]
      split
      · rfl
      · split
        · split
          · rfl
          · exact ih _ _ _
        · exact ih _ _ _

/-- One lap of the counted search: it stops at a fitting block without a call, or it calls
{lit}`morecore` at the end of the lap. -/
theorem kmallocCounted_lap {fuel prevp : Nat} {l : List Nat} (nbytes nunits : Nat)
    (hl : Linked s.heap.next (prevp :: l ++ [s.heap.freep])) (hnot : s.heap.freep ∉ l)
    (hfuel : l.length < fuel) :
    ((∃ x ∈ l ++ [s.heap.freep], nunits ≤ s.heap.size x) →
        (s.kmallocCounted nbytes nunits fuel prevp (s.heap.next prevp)).1 = 0) ∧
      ((∀ x ∈ l ++ [s.heap.freep], s.heap.size x < nunits) →
        (s.kmallocCounted nbytes nunits fuel prevp (s.heap.next prevp)).1 =
          if (s.morecore nunits).1 = 0 then 1
          else ((s.morecore nunits).2.kmallocCounted nbytes nunits (fuel - l.length - 1)
            (s.morecore nunits).1
            ((s.morecore nunits).2.heap.next (s.morecore nunits).1)).1 + 1) := by
  induction l generalizing prevp fuel with
  | nil =>
      obtain ⟨fuel, rfl⟩ : ∃ k, fuel = k + 1 := ⟨fuel - 1, by omega⟩
      have hnext : s.heap.next prevp = s.heap.freep := by simpa [Linked] using hl
      rw [hnext]
      simp only [List.nil_append, List.mem_singleton, exists_eq_left, forall_eq, List.length_nil,
        Nat.sub_zero, Nat.add_sub_cancel]
      refine ⟨fun hfit => ?_, fun hsmall => ?_⟩
      · simp only [Store.kmallocCounted]
        rw [if_pos hfit]
      · simp only [Store.kmallocCounted, if_true]
        rw [if_neg (by omega)]
        split
        · rfl
        · rfl
  | cons a l ih =>
      obtain ⟨fuel, rfl⟩ : ∃ k, fuel = k + 1 := ⟨fuel - 1, by omega⟩
      have hsplit : s.heap.next prevp = a ∧ Linked s.heap.next (a :: l ++ [s.heap.freep]) := by
        simpa [Linked, List.isChain_cons_cons] using hl
      have hne : a ≠ s.heap.freep := fun heq => hnot (by simp [heq])
      rw [List.length_cons] at hfuel ⊢
      obtain ⟨hfound, hlap⟩ := ih hsplit.2 (fun hmem => hnot (by simp [hmem]))
        (show l.length < fuel by omega)
      have hcount : fuel + 1 - (l.length + 1) - 1 = fuel - l.length - 1 := by omega
      rw [hsplit.1, hcount]
      by_cases hfit : nunits ≤ s.heap.size a
      · refine ⟨fun _ => ?_, fun hsmall => ?_⟩
        · simp only [Store.kmallocCounted]
          rw [if_pos hfit]
        · have := hsmall a (by simp)
          omega
      · have hstep : s.kmallocCounted nbytes nunits (fuel + 1) prevp a =
            s.kmallocCounted nbytes nunits fuel a (s.heap.next a) := by
          rw [Store.kmallocCounted, if_neg hfit, if_neg hne]
        rw [hstep]
        refine ⟨fun hex => hfound ?_, fun hsmall => hlap fun x hx => hsmall x ?_⟩
        · obtain ⟨x, hx, hxfit⟩ := hex
          rcases List.mem_cons.1 hx with rfl | hx
          · exact absurd hxfit hfit
          · exact ⟨x, hx, hxfit⟩
        · exact List.mem_cons_of_mem _ hx

/-- The counted search over the whole free list. -/
theorem HeapShape.counted (hs : HeapShape L s.heap ts) (nbytes nunits : Nat) {fuel : Nat}
    (hfuel : 2 ^ 20 ≤ fuel) :
    ((∃ x ∈ L.base :: openAddrs ts, nunits ≤ s.heap.size x) →
        (s.kmallocCounted nbytes nunits fuel s.heap.freep (s.heap.next s.heap.freep)).1 = 0) ∧
      ((∀ x ∈ L.base :: openAddrs ts, s.heap.size x < nunits) → ∃ rest, fuel ≤ rest + 2 ^ 20 ∧
        (s.kmallocCounted nbytes nunits fuel s.heap.freep (s.heap.next s.heap.freep)).1 =
          if (s.morecore nunits).1 = 0 then 1
          else ((s.morecore nunits).2.kmallocCounted nbytes nunits rest (s.morecore nunits).1
            ((s.morecore nunits).2.heap.next (s.morecore nunits).1)).1 + 1) := by
  have hlen := hs.length_le
  obtain ⟨l, hlinked, hnot, hcount, hmem⟩ := hs.ring.exists_lap hs.nodup hs.freep_mem
  have hnodes : ∀ x, x ∈ l ++ [s.heap.freep] ↔ x ∈ L.base :: openAddrs ts := by
    intro x
    rw [← hmem x, List.mem_append, List.mem_singleton, List.mem_cons, or_comm]
  obtain ⟨hfound, hlap⟩ := kmallocCounted_lap nbytes nunits hlinked hnot (show l.length < fuel by omega)
  simp only [hnodes] at hfound hlap
  exact ⟨hfound, fun hsmall => ⟨_, by omega, hlap hsmall⟩⟩

/-- {lit}`kmalloc` calls {lit}`morecore` at most once. -/
theorem HeapOk.calls_le (hok : HeapOk L s ts) {n : Nat} (hn : n ≤ 0x3FF000) :
    (s.kmallocCounted n (unitsFor n) searchFuel s.heap.freep (s.heap.next s.heap.freep)).1 ≤ 1 := by
  have hfuel : searchFuel = 2 ^ 32 := by rw [searchFuel]
  have hunits := unitsFor_bounds hn
  obtain ⟨hfound, hlap⟩ := hok.shape.counted n (unitsFor n)
    (show 2 ^ 20 ≤ searchFuel by rw [hfuel]; norm_num)
  by_cases hex : ∃ x ∈ L.base :: openAddrs ts, unitsFor n ≤ s.heap.size x
  · rw [hfound hex]
    exact Nat.zero_le 1
  · push Not at hex
    obtain ⟨rest, hrest, hcalls⟩ := hlap hex
    rw [hcalls]
    rcases hok.shape.morecore hok.window hok.aligned hunits.2.2 with
      ⟨s₁, hcore, hgrown⟩ | ⟨s₁, hcore, -⟩
    · -- On the second lap the new pages are a block that fits.
      obtain ⟨hok₁, -⟩ := hok.grown hgrown
      have hsecond := (hok₁.shape.counted n (unitsFor n)
        (show 2 ^ 20 ≤ rest by rw [hfuel] at hrest; omega)).1 (hgrown.exists_fit hok.shape)
      rw [hcore, if_neg hok₁.freep_ne]
      simp only [hsecond]
      exact le_rfl
    · rw [hcore, if_pos rfl]

/-- {lit}`kmalloc`, with its calls of {lit}`morecore` counted. -/
def Store.kmallocSearch (s : Store) (L : Layout) (nbytes : Nat) : Nat × Nat × Store :=
  Store.kmallocCounted nbytes (unitsFor nbytes) searchFuel (s.heap.prepared L).freep
    ((s.heap.prepared L).next (s.heap.prepared L).freep) { s with heap := s.heap.prepared L }

/-- The number of calls of {lit}`morecore` that {lit}`kmalloc` makes. -/
def Store.morecoreCalls (s : Store) (L : Layout) (nbytes : Nat) : Nat :=
  (s.kmallocSearch L nbytes).1

/-- The search that is counted is that of {lit}`kmalloc`. -/
theorem kmallocSearch_snd (s : Store) (L : Layout) {nbytes : Nat} (h : 1 ≤ nbytes) :
    (s.kmallocSearch L nbytes).2 = s.kmalloc L nbytes := by
  rw [Store.kmallocSearch, kmallocCounted_snd, Store.kmalloc, if_neg (by omega)]

/-- The nodes of the free list: the sentinel and the free blocks. -/
def Heap.nodes (h : Heap) (L : Layout) : List Nat :=
  L.base :: (h.freeBlocks L).map Prod.fst

/-- The heap with {lit}`freep` at {lit}`x`. -/
def Store.startAt (s : Store) (x : Nat) : Store :=
  { s with heap := { s.heap with freep := x } }

/-- The positions of {lit}`freep`: null before the first call, then any node of the list. -/
def Heap.OnList (h : Heap) (L : Layout) (x : Nat) : Prop :=
  if h.freep = 0 then x = 0 else x ∈ h.nodes L

theorem HeapOk.nodes_eq (hok : HeapOk L s ts) : s.heap.nodes L = L.base :: openAddrs ts := by
  rw [Heap.nodes, hok.freeBlocks_fst]

/-- The position of {lit}`freep` is no part of the invariant. -/
theorem HeapOk.startAt (hok : HeapOk L s ts) {x : Nat} (hx : x ∈ s.heap.nodes L) :
    HeapOk L (s.startAt x) ts := by
  rw [hok.nodes_eq] at hx
  have hs := hok.shape
  exact ⟨⟨hs.tiled, hs.units, hs.ring, hs.base_size, hx, hs.coalesced, hs.top, hs.heapMax, hs.hung⟩,
    hok.live, hok.room, hok.aligned, hok.window, hok.mapped, hok.distinct⟩

theorem HeapReady.startAt (hr : HeapReady L s ts) {x : Nat} (hx : s.heap.OnList L x) :
    HeapReady L (s.startAt x) ts := by
  unfold Heap.OnList at hx
  rcases hr with hok | ⟨hf, hts⟩
  · rw [if_neg hok.freep_ne] at hx
    exact .inl (hok.startAt hx)
  · rw [if_pos hf.freep] at hx
    refine .inr ⟨⟨hx, hf.current, hf.heapMax, hf.hung, hf.live, hf.window⟩, hts⟩

/-- From every position of {lit}`freep` both searches end: {lit}`kfree` stops within one lap
at the only insertion point, and {lit}`kmalloc` calls {lit}`morecore` at most once, finds a
fitting block when there is one, and fails only when there is none and the heap cannot grow. -/
theorem heap_searches_end (h₀ : HeapFresh L s₀) (hrun : HeapRun L s₀ s live) {x : Nat}
    (hx : s.heap.OnList L x) :
    (∀ b ∈ live, ∃ p ∈ s.heap.nodes L,
      (∀ y ∈ s.heap.nodes L, insertsAfter s.heap.next (b.1 - 8) y = true ↔ y = p) ∧
      seek s.heap.next (insertsAfter s.heap.next (b.1 - 8)) (s.heap.nodes L).length x = some p ∧
      ((s.startAt x).kfree b.1).heap.freep = p ∧ ((s.startAt x).kfree b.1).heap.hung = false) ∧
    ∀ n, 1 ≤ n → n ≤ 0x3FF000 →
      ((s.startAt x).kmalloc L n).2.heap.hung = false ∧
      ((s.startAt x).kmallocSearch L n).2 = (s.startAt x).kmalloc L n ∧
      (s.startAt x).morecoreCalls L n ≤ 1 ∧
      ((∃ b ∈ s.heap.freeBlocks L, unitsFor n ≤ b.2) → ((s.startAt x).kmalloc L n).1 ≠ 0) ∧
      (((s.startAt x).kmalloc L n).1 = 0 →
        (∀ b ∈ s.heap.freeBlocks L, b.2 < unitsFor n) ∧
        (0xC03FF000 < s.heap.heapCurrent + 4096 * corePages (unitsFor n) ∨
          (s.mem.pfa.freeCount < corePages (unitsFor n) ∧
            Spent ((s.startAt x).kmalloc L n).2.mem.pfa))) := by
  obtain ⟨rfl, ts, hr⟩ := hrun.ready h₀
  have hr' := hr.startAt hx
  refine ⟨fun b hb => ?_, fun n hpos hn => ?_⟩
  · have hok := hr.ok_of_live hb
    have hok' : HeapOk L (s.startAt x) ts := hr'.ok_of_live hb
    obtain ⟨t, ht, hto, hbt⟩ := hok.exists_tile hb
    obtain ⟨pre, post, rfl⟩ := List.append_of_mem ht
    obtain ⟨A, p, hp⟩ := exists_lastBefore L pre
    rw [hok.nodes_eq, hbt, Nat.add_sub_cancel]
    refine ⟨p, (hok.shape.insertion hto hp).2.2.1, fun y hy => hok.shape.insertsAfter_iff hto hp hy,
      hok'.shape.seek_kfree hto hp le_rfl, ?_, (hok'.shape.kfree hto).1.hung⟩
    change ((s.startAt x).heap.kfree (t.addr + 8)).freep = p
    rw [hok'.shape.kfree_eq hto hp]
  · have hspec := kmalloc_spec hr' hpos hn
    have hcalls := hr'.prepared.calls_le hn
    obtain ⟨hcur, -⟩ := prepared_frame L (s.startAt x).heap
    have hfree : ∀ b, b ∈ s.heap.freeBlocks L ↔ ∃ t ∈ ts, t.owner = none ∧ t.addr = b.1 ∧
        t.len = 8 * b.2 := by
      intro b
      rw [← hr.freeBlocks_prepared]
      exact hr.prepared.mem_freeBlocks
    have hsmall : (∀ t ∈ ts, t.owner = none → t.len < 8 * unitsFor n) →
        ∀ b ∈ s.heap.freeBlocks L, b.2 < unitsFor n := by
      intro hnone b hb
      obtain ⟨t, ht, hto, -, htl⟩ := (hfree b).1 hb
      have := hnone t ht hto
      omega
    have hsearch := kmallocSearch_snd (s.startAt x) L hpos
    generalize (s.startAt x).kmalloc L n = r at hspec hsearch
    refine ⟨?_, hsearch, hcalls, ?_, ?_⟩
    · cases hspec with
      | block halloc => exact halloc.ok.shape.hung
      | fail hok => exact hok.shape.hung
    · rintro ⟨b, hb, hfit⟩
      cases hspec with
      | block halloc => exact halloc.ptr_ne
      | fail hok hmem hkept hwhy hnone =>
          have := hsmall hnone b hb
          omega
    · intro hzero
      cases hspec with
      | block halloc => exact absurd hzero halloc.ptr_ne
      | fail hok hmem hkept hwhy hnone =>
          refine ⟨hsmall hnone, ?_⟩
          rcases hwhy with ⟨hroom, -⟩ | ⟨-, hshort, hspent⟩
          · exact .inl (hcur ▸ hroom)
          · exact .inr ⟨hshort, hspent⟩

/-- The searches on the sample heap after its first block. -/
theorem heap_searches_end_first_block :
    (sampleStore.kmalloc sampleLayout 4096).2.heap.OnList sampleLayout sampleLayout.base ∧
      ((sampleStore.kmalloc sampleLayout 4096).2.startAt sampleLayout.base).morecoreCalls
        sampleLayout 84 ≤ 1 := by
  have hstart : HeapRun sampleLayout sampleStore sampleStore [] := .start
  have hrun := hstart.kmalloc 4096 (by norm_num) (by norm_num)
  obtain ⟨-, ts, hr⟩ := hrun.ready sampleStore_fresh
  have hx : (sampleStore.kmalloc sampleLayout 4096).2.heap.OnList sampleLayout
      sampleLayout.base := by
    rw [if_neg sampleStore_kmalloc] at hrun
    have hlive := (hrun.ready sampleStore_fresh).1
    have hok := hr.ok_of_live (hlive ▸ List.mem_singleton_self _)
    rw [Heap.OnList, if_neg hok.freep_ne]
    exact List.mem_cons_self
  exact ⟨hx, ((heap_searches_end sampleStore_fresh hrun hx).2 84 (by norm_num) (by norm_num)).2.2.1⟩

end SoKernel
