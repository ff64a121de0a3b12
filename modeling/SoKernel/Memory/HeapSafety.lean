import SoKernel.Memory.HeapAllocation

/-!
# Safety of the kernel heap over whole runs

A run of the heap is any sequence of {lit}`kmalloc` calls of admitted size and
{lit}`kfree` calls on live pointers.  Between two calls the rest of the kernel may
take and release other frames, remap other pages and write into the blocks it
holds, so frames may be missing at any call.

Main results:

- Theorem {lit}`HeapRun.ready`: every state of a run satisfies the invariant.
- Theorem {lit}`heap_calls_safe`: what holds after each call of a run.
-/

namespace SoKernel

variable {L : Layout} {s₀ s : Store} {live : List (Nat × Nat)}

/-! ## Runs -/

/-- What the rest of the kernel may do between two calls. -/
structure Between (L : Layout) (s : Store) (live : List (Nat × Nat)) (m : Memory)
    (bytes : ByteMemory) : Prop where
  startFrame : m.pfa.startFrame = s.mem.pfa.startFrame
  totalFrames : m.pfa.totalFrames = s.mem.pfa.totalFrames
  pages : ∀ i, pageIndex L.heapStart ≤ i → i < pageIndex s.heap.heapCurrent →
    m.kernelPageTable i = s.mem.kernelPageTable i
  frames : ∀ i f, pageIndex L.heapStart ≤ i → i < pageIndex s.heap.heapCurrent →
    s.mem.kernelPageTable i = 4096 * f + 3 → s.mem.pfa.used f = true → m.pfa.used f = true
  bytes : ∀ x, (∀ b ∈ live, x < b.1 ∨ b.1 + b.2 ≤ x) → bytes x = s.heap.bytes x

/-- The states of a run, with the pointers returned and not yet released and the
size asked for each. -/
inductive HeapRun (L : Layout) (s₀ : Store) : Store → List (Nat × Nat) → Prop
  | start : HeapRun L s₀ s₀ []
  | kmalloc {s : Store} {live : List (Nat × Nat)} (n : Nat) (hrun : HeapRun L s₀ s live)
      (hpos : 1 ≤ n) (hn : n ≤ 0x3FF000) :
      HeapRun L s₀ (s.kmalloc L n).2
        (if (s.kmalloc L n).1 = 0 then live else ((s.kmalloc L n).1, n) :: live)
  | kfree {s : Store} {live : List (Nat × Nat)} (b : Nat × Nat) (hrun : HeapRun L s₀ s live)
      (hb : b ∈ live) : HeapRun L s₀ (s.kfree b.1) (live.filter fun c => c.1 ≠ b.1)
  | between {s : Store} {live : List (Nat × Nat)} {m : Memory} {bytes : ByteMemory}
      (hrun : HeapRun L s₀ s live) (hother : Between L s live m bytes) :
      HeapRun L s₀ ⟨m, { s.heap with bytes := bytes }⟩ live

/-! ## The invariant along a run -/

theorem HeapReady.between {ts : List (Tile Nat)} {m : Memory} {bytes : ByteMemory}
    (hr : HeapReady L s ts) (hother : Between L s s.heap.live m bytes) :
    HeapReady L ⟨m, { s.heap with bytes := bytes }⟩ ts := by
  rcases hr with hok | ⟨hf, hts⟩
  · refine .inl ⟨hok.shape.congr ?_ rfl rfl rfl rfl, hok.live, hok.room, hok.aligned,
      ⟨hother.startFrame ▸ hok.window.1, hother.totalFrames ▸ hok.window.2⟩, ?_, ?_⟩
    · intro a ha x hlo hhi
      refine hother.bytes x fun b hb => ?_
      obtain ⟨t, ht, rfl⟩ := List.mem_map.1 (hok.live.mem_iff.1 hb)
      obtain ⟨htm, hto⟩ := mem_ownedTiles.1 ht
      obtain ⟨n, hn⟩ := Option.isSome_iff_exists.1 hto
      have hroom := hok.room t htm n hn
      -- A header is never inside the part of a block that its holder may write.
      by_contra hin
      simp only [liveEntry, hn, Option.getD_some, not_or, not_lt, not_le] at hin
      have := payload_outside hok.shape.tiled (fun z hz => (hok.shape.bounds hz).2.1) htm hin.1
        (by omega) a ha
      omega
    · intro i hlo hhi
      obtain ⟨f, hf, hfm⟩ := hok.mapped i hlo hhi
      exact ⟨f, hother.frames i f hlo hhi hfm hf, (hother.pages i hlo hhi).trans hfm⟩
    · intro i j hilo hihi hjlo hjhi heq
      refine hok.distinct i j hilo hihi hjlo hjhi ?_
      rw [← hother.pages i hilo hihi, ← hother.pages j hjlo hjhi]
      exact heq
  · exact .inr ⟨⟨hf.freep, hf.current, hf.heapMax, hf.hung, hf.live,
      hother.startFrame ▸ hf.window.1, hother.totalFrames ▸ hf.window.2⟩, hts⟩

theorem Allocated.ptr_ne {s' : Store} {ts ts' : List (Tile Nat)} {n ptr : Nat} {u : Tile Nat}
    (ha : Allocated L s s' ts n ptr ts' u) : ptr ≠ 0 := by
  have := ha.ptr_eq
  omega

/-- One call of {lit}`kmalloc` gives the invariant again, and the history list
follows the returned pointer. -/
theorem HeapReady.kmalloc {ts : List (Tile Nat)} (hr : HeapReady L s ts) {n : Nat} (hpos : 1 ≤ n)
    (hn : n ≤ 0x3FF000) :
    ∃ ts', HeapOk L (s.kmalloc L n).2 ts' ∧
      (s.kmalloc L n).2.heap.live =
        (if (s.kmalloc L n).1 = 0 then s.heap.live else ((s.kmalloc L n).1, n) :: s.heap.live) ∧
      (∀ t ∈ ownedTiles ts, t ∈ ts') ∧
      PayloadKept (s.heap.prepared L) (s.kmalloc L n).2.heap ts ts' := by
  have hlive := (prepared_frame L s.heap).2
  cases hres : s.kmalloc L n with
  | mk ptr s' =>
      have hspec := kmalloc_spec hr hpos hn
      rw [hres] at hspec
      cases hspec with
      | block halloc hmem hcount hcur =>
          refine ⟨_, halloc.ok, ?_, fun t ht => ?_, halloc.payload⟩
          · rw [if_neg halloc.ptr_ne, halloc.live]
            exact congrArg _ hlive
          · have := halloc.owned.mem_iff.2 (List.mem_cons_of_mem _ ht)
            exact (mem_ownedTiles.1 this).1
      | fail hok hmem hkept hwhy =>
          refine ⟨ts, hok, ?_, fun t ht => (mem_ownedTiles.1 ht).1, fun t ht _ x _ hhi => ?_⟩
          · rw [if_pos rfl, hkept.live]
            exact hlive
          · have hb := hr.prepared.shape.tiled.bounds (mem_ownedTiles.1 ht).1
            exact hkept.bytes x (lt_of_lt_of_le hhi hb.2.2)

/-- The size that a heap with these live blocks can have when no free block fits {lit}`n`
bytes. -/
def crowded (live : List (Nat × Nat)) (n : Nat) : Nat :=
  (live.map fun b => 8 * unitsFor b.2 + 8 * unitsFor n).sum + 8 * unitsFor n

/-- A larger request and a block more allow a larger heap. -/
theorem crowded_le {live : List (Nat × Nat)} {n n' : Nat} (hn : unitsFor n ≤ unitsFor n')
    (b : Nat × Nat) : crowded live n ≤ crowded (b :: live) n' := by
  have hsum : (live.map fun b => 8 * unitsFor b.2 + 8 * unitsFor n).sum ≤
      (live.map fun b => 8 * unitsFor b.2 + 8 * unitsFor n').sum :=
    List.sum_le_sum fun b _ => by omega
  unfold crowded
  rw [List.map_cons, List.sum_cons]
  omega

/-- The tiles take the room that the history list accounts for. -/
theorem HeapOk.spacedLen_eq {ts : List (Tile Nat)} (hok : HeapOk L s ts) (c : Nat) :
    spacedLen c ts = (s.heap.live.map fun b => 8 * unitsFor b.2 + c).sum := by
  have hperm := hok.live.map fun b => 8 * unitsFor b.2 + c
  rw [hperm.sum_eq, List.map_map, spacedLen]
  congr 1
  refine List.map_congr_left fun t ht => ?_
  obtain ⟨htm, hto⟩ := mem_ownedTiles.1 ht
  obtain ⟨n, hn⟩ := Option.isSome_iff_exists.1 hto
  rw [(hok.room t htm n hn).2]
  simp [liveEntry, hn]

/-- The heap grows only while it is crowded. -/
theorem HeapReady.kmalloc_current {ts : List (Tile Nat)} (hr : HeapReady L s ts) {n : Nat}
    (hpos : 1 ≤ n) (hn : n ≤ 0x3FF000) :
    (s.kmalloc L n).2.heap.heapCurrent = s.heap.heapCurrent ∨
      s.heap.heapCurrent ≤ L.heapStart + crowded s.heap.live n := by
  obtain ⟨hcur, hlive⟩ := prepared_frame L s.heap
  have hok := hr.prepared
  have hfull : (∀ t ∈ ts, t.owner = none → t.len < 8 * unitsFor n) →
      s.heap.heapCurrent ≤ L.heapStart + crowded s.heap.live n := by
    intro hnone
    have hle := (hok.shape.tiled.length_le hok.shape.coalesced (c := 8 * unitsFor n)
      fun t ht hto => (hnone t ht hto).le).1
    rw [hok.spacedLen_eq, hlive, hcur] at hle
    unfold crowded
    omega
  cases hres : s.kmalloc L n with
  | mk ptr s' =>
      have hspec := kmalloc_spec hr hpos hn
      rw [hres] at hspec
      cases hspec with
      | block halloc hmem hcount hbounds hgot =>
          cases hgot with
          | fitting hsame => exact .inl (hsame.trans hcur)
          | grown hend hnone => exact .inr (hfull (not_openFits.1 hnone))
      | fail hok' hmem hkept hwhy hnone => exact .inl (hkept.heapCurrent.trans hcur)

/-- A live pointer is the payload address of an owned block. -/
theorem HeapOk.exists_tile {ts : List (Tile Nat)} (hok : HeapOk L s ts) {b : Nat × Nat}
    (hb : b ∈ s.heap.live) : ∃ t ∈ ts, t.owner = some b.2 ∧ b.1 = t.addr + 8 := by
  obtain ⟨t, ht, rfl⟩ := List.mem_map.1 (hok.live.mem_iff.1 hb)
  obtain ⟨htm, hto⟩ := mem_ownedTiles.1 ht
  obtain ⟨n, hn⟩ := Option.isSome_iff_exists.1 hto
  exact ⟨t, htm, by simp [liveEntry, hn], rfl⟩

theorem HeapReady.ok_of_live {ts : List (Tile Nat)} (hr : HeapReady L s ts) {b : Nat × Nat}
    (hb : b ∈ s.heap.live) : HeapOk L s ts := by
  rcases hr with hok | ⟨hf, -⟩
  · exact hok
  · rw [hf.live] at hb
    cases hb

/-- One call of {lit}`kfree` on a live pointer gives the invariant again. -/
theorem HeapOk.kfree_live {ts : List (Tile Nat)} (hok : HeapOk L s ts) {b : Nat × Nat}
    (hb : b ∈ s.heap.live) :
    ∃ ts', HeapOk L (s.kfree b.1) ts' ∧
      (s.kfree b.1).heap.live = s.heap.live.filter (fun c => c.1 ≠ b.1) ∧
      (∀ t ∈ ownedTiles ts, t.addr + 8 ≠ b.1 → t ∈ ts') ∧
      PayloadKept s.heap (s.kfree b.1).heap ts ts' := by
  obtain ⟨t, ht, hto, hbt⟩ := hok.exists_tile hb
  obtain ⟨pre, post, hts⟩ := List.append_of_mem ht
  obtain ⟨hok', hperm, hpay⟩ := hok.kfree hts hto
  have hlive := ((hts ▸ hok.shape : HeapShape L s.heap (pre ++ t :: post)).kfree_frame hto).2
  rw [hbt]
  refine ⟨_, hok', hlive, fun u hu hne => ?_, hpay⟩
  rcases List.mem_cons.1 (hperm.mem_iff.1 hu) with rfl | hu
  · exact absurd rfl hne
  · exact (mem_ownedTiles.1 hu).1

/-- Every state of a run satisfies the invariant, and the history list is the list
of the run. -/
theorem HeapRun.ready (h₀ : HeapFresh L s₀) (hrun : HeapRun L s₀ s live) :
    s.heap.live = live ∧ ∃ ts, HeapReady L s ts := by
  induction hrun with
  | start => exact ⟨h₀.live, [], .inr ⟨h₀, rfl⟩⟩
  | kmalloc n _ hpos hn ih =>
      obtain ⟨hlive, ts, hr⟩ := ih
      obtain ⟨ts', hok, hlive', -, -⟩ := hr.kmalloc hpos hn
      exact ⟨by rw [hlive', hlive], ts', .inl hok⟩
  | kfree b _ hb ih =>
      obtain ⟨hlive, ts, hr⟩ := ih
      rw [← hlive] at hb
      obtain ⟨ts', hok, hlive', -, -⟩ := (hr.ok_of_live hb).kfree_live hb
      exact ⟨by rw [hlive', hlive], ts', .inl hok⟩
  | between _ hother ih =>
      obtain ⟨hlive, ts, hr⟩ := ih
      exact ⟨hlive, ts, hr.between (hlive ▸ hother)⟩

/-! ## What holds after each call -/

/-- The safe states: the free list is circular and in increasing order from the
sentinel, free and live blocks tile the heap, live blocks have room for what was
asked for, and all of it lies on mapped pages below the temporary window. -/
structure HeapSafe (L : Layout) (s : Store) (live : List (Nat × Nat)) (ts : List (Tile Nat)) :
    Prop where
  ring : IsRing s.heap.next (L.base :: openAddrs ts)
  sorted : (L.base :: openAddrs ts).Pairwise (· < ·)
  freep : s.heap.freep ∈ L.base :: openAddrs ts
  sentinel : s.heap.size L.base = 0
  tiled : Tiled L.heapStart ts s.heap.heapCurrent
  headers : ∀ t ∈ ts, 8 * s.heap.size t.addr = t.len
  blocks : live.Perm ((ownedTiles ts).map liveEntry)
  room : ∀ b ∈ live, b.2 ≤ 8 * s.heap.size (b.1 - 8) - 8
  mapped : ∀ v, L.heapStart ≤ v → v < s.heap.heapCurrent →
    v < 0xC03FF000 ∧ present (s.mem.kernelPageTable (pageIndex v)) = true
  ended : s.heap.hung = false

/-- No byte of the payload of a listed block differs. -/
def SamePayloads (h h' : Heap) (live : List (Nat × Nat)) : Prop :=
  ∀ b ∈ live, ∀ x, b.1 ≤ x → x < b.1 - 8 + 8 * h.size (b.1 - 8) → h'.bytes x = h.bytes x

theorem HeapOk.safe {ts : List (Tile Nat)} (hok : HeapOk L s ts) :
    HeapSafe L s s.heap.live ts := by
  refine ⟨hok.shape.ring, hok.shape.sorted, hok.shape.freep_mem, hok.shape.base_size,
    hok.shape.tiled, hok.shape.units, hok.live, fun b hb => ?_, fun v hlo hhi => ?_, hok.shape.hung⟩
  · obtain ⟨t, ht, hto, hbt⟩ := hok.exists_tile hb
    have hroom := hok.room t ht b.2 hto
    have hunits := hok.shape.units t ht
    rw [hbt, Nat.add_sub_cancel, hunits]
    omega
  · have htop := hok.shape.top
    have hcur := hok.current_lo
    have halign := hok.aligned
    have hstart := L.heapStart_bounds
    have hpage : pageIndex L.heapStart ≤ pageIndex v ∧ pageIndex v < pageIndex s.heap.heapCurrent := by
      simp only [pageIndex]
      omega
    obtain ⟨f, -, hf⟩ := hok.mapped _ hpage.1 hpage.2
    refine ⟨by omega, ?_⟩
    rw [hf, present_eq, decide_eq_true_eq]
    omega

/-- Payloads of owned blocks are payloads of live pointers. -/
theorem HeapOk.samePayloads {h' : Heap} {ts ts' : List (Tile Nat)} {kept : List (Nat × Nat)}
    (hok : HeapOk L s ts) (hkept : ∀ b ∈ kept, b ∈ s.heap.live)
    (hmem : ∀ t ∈ ownedTiles ts, liveEntry t ∈ kept → t ∈ ts')
    (hpay : PayloadKept s.heap h' ts ts') : SamePayloads s.heap h' kept := by
  intro b hb x hlo hhi
  obtain ⟨t, ht, hto, hbt⟩ := hok.exists_tile (hkept b hb)
  have howned : t ∈ ownedTiles ts := mem_ownedTiles.2 ⟨ht, by simp [hto]⟩
  have hentry : liveEntry t = b := by
    rw [liveEntry, hto, ← hbt]
    rfl
  have hunits := hok.shape.units t ht
  refine hpay t howned (hmem t howned (hentry ▸ hb)) x (by omega) ?_
  rw [hbt, Nat.add_sub_cancel, hunits] at hhi
  exact hhi

/-- Kernel heap safety: after each call of a run, at any point of which frames may
be missing, the state is safe and every block that stays live has its payload. -/
theorem heap_calls_safe (h₀ : HeapFresh L s₀) (hrun : HeapRun L s₀ s live) :
    (∀ n, 1 ≤ n → n ≤ 0x3FF000 →
      (∃ ts, HeapSafe L (s.kmalloc L n).2
        (if (s.kmalloc L n).1 = 0 then live else ((s.kmalloc L n).1, n) :: live) ts) ∧
      SamePayloads s.heap (s.kmalloc L n).2.heap live) ∧
    (∀ b ∈ live,
      (∃ ts, HeapSafe L (s.kfree b.1) (live.filter fun c => c.1 ≠ b.1) ts) ∧
      SamePayloads s.heap (s.kfree b.1).heap (live.filter fun c => c.1 ≠ b.1)) := by
  obtain ⟨rfl, ts, hr⟩ := hrun.ready h₀
  refine ⟨fun n hpos hn => ?_, fun b hb => ?_⟩
  · obtain ⟨ts', hok, hlive, hmem, hpay⟩ := hr.kmalloc hpos hn
    refine ⟨⟨ts', hlive ▸ hok.safe⟩, ?_⟩
    rcases hr with hready | ⟨hf, -⟩
    · rw [Heap.prepared, if_neg hready.freep_ne] at hpay
      exact hready.samePayloads (fun _ hb => hb) (fun t ht _ => hmem t ht) hpay
    · intro b hb
      rw [hf.live] at hb
      cases hb
  · have hready := hr.ok_of_live hb
    obtain ⟨ts', hok, hlive, hmem, hpay⟩ := hready.kfree_live hb
    refine ⟨⟨ts', hlive ▸ hok.safe⟩, ?_⟩
    refine hready.samePayloads (fun c hc => (List.mem_filter.1 hc).1) (fun t ht hkept => ?_) hpay
    exact hmem t ht (of_decide_eq_true (List.mem_filter.1 hkept).2)

/-- A concrete image: 2 MB of kernel with its static objects at the start. -/
def sampleLayout : Layout where
  kernelPhysicalEnd := 0x200000
  base := 0xC0103000
  kernelPageTablePhys := 0x101000
  pageDirectoryPhys := 0x102000
  kernelStackTop := 0xC0105000
  image_lo := by norm_num
  image_hi := by norm_num
  base_lo := by norm_num
  base_hi := by norm_num
  table_aligned := by norm_num
  table_lo := by norm_num
  table_hi := by norm_num
  directory_aligned := by norm_num
  directory_lo := by norm_num
  directory_hi := by norm_num

/-- Memory before the first allocation, with every frame above 4 MB free. -/
def sampleStore : Store where
  mem :=
    { pfa := Pfa.pfaInit 0x400000 0x4000000 0 0
      phys := fun _ => 0
      kernelPageTable := fun _ => 0
      pageDirectory := fun _ => 0
      cr3 := 0x102000
      strayAccess := false
      destroyedLoaded := false }
  heap := Heap.kheapInit ⟨fun _ => 0, 0, 0, 0, false, []⟩ sampleLayout

theorem sampleStore_fresh : HeapFresh sampleLayout sampleStore := by
  refine ⟨rfl, rfl, rfl, rfl, rfl, ?_, ?_⟩
  · show 0 < (Pfa.pfaInit 0x400000 0x4000000 0 0).startFrame
    rw [Pfa.pfaInit_startFrame]
    decide
  · show (Pfa.pfaInit 0x400000 0x4000000 0 0).totalFrames ≤ 16384
    rw [Pfa.pfaInit_totalFrames]

/-- Two allocations in a row from the fresh heap, the second with any admitted size. -/
theorem heap_calls_safe_second_call :
    ∃ ts, HeapSafe sampleLayout ((sampleStore.kmalloc sampleLayout 4096).2.kmalloc sampleLayout 84).2
      (if ((sampleStore.kmalloc sampleLayout 4096).2.kmalloc sampleLayout 84).1 = 0 then
        (if (sampleStore.kmalloc sampleLayout 4096).1 = 0 then []
          else [((sampleStore.kmalloc sampleLayout 4096).1, 4096)])
      else (((sampleStore.kmalloc sampleLayout 4096).2.kmalloc sampleLayout 84).1, 84) ::
        (if (sampleStore.kmalloc sampleLayout 4096).1 = 0 then []
          else [((sampleStore.kmalloc sampleLayout 4096).1, 4096)])) ts :=
  ((heap_calls_safe sampleStore_fresh
    (.kmalloc 4096 .start (by norm_num) (by norm_num))).1 84 (by norm_num) (by norm_num)).1

end SoKernel
