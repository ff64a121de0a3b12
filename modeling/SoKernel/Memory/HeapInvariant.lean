import SoKernel.Library.Tiling
import SoKernel.Memory.KernelHeap

/-!
# The heap invariant and release

The bytes of the heap are described by a tiling of
{lit}`[heap_start, heap_current)`: every block has a header that holds its size,
and the open blocks together with the sentinel form the circular list in
increasing order.  This module states that description and shows that
{lit}`kfree` keeps it, with merging on both sides.

Main results:

- Definition {lit}`HeapShape`: the raw bytes represent a tiling.
- Theorem {lit}`HeapShape.kfree`: releasing an owned block gives the tiling in
  which it is released.
-/

namespace SoKernel

namespace Heap

/-! ## Header accesses -/

/-- Two header addresses whose headers do not overlap. -/
def Apart (a b : Nat) : Prop :=
  a + 8 ≤ b ∨ b + 8 ≤ a

/-- The members of a set of header addresses do not overlap each other. -/
def Spread (H : List Nat) : Prop :=
  ∀ a ∈ H, ∀ b ∈ H, b = a ∨ Apart a b

/-- A link is a word. -/
theorem next_lt (h : Heap) (p : Nat) : h.next p < 2 ^ 32 :=
  ByteMemory.read32_lt _ _

/-- A size is a word. -/
theorem size_lt (h : Heap) (p : Nat) : h.size p < 2 ^ 32 :=
  ByteMemory.read32_lt _ _

/-- What is cut to 32 bits is below 2^32. -/
theorem u32_lt (n : Nat) : u32 n < 2 ^ 32 :=
  Nat.mod_lt _ (by norm_num)

/-- A number below 2^32 is not cut. -/
theorem u32_of_lt {n : Nat} (h : n < 2 ^ 32) : u32 n = n :=
  Nat.mod_eq_of_lt h

/-- A store to a {lit}`next` field, seen from any header of a spread set. -/
theorem next_setNext (h : Heap) {H : List Nat} (hH : Spread H) {a b v : Nat} (ha : a ∈ H)
    (hb : b ∈ H) (hv : v < 2 ^ 32) :
    (h.setNext a v).next b = Function.update h.next a v b := by
  rcases hH a ha b hb with rfl | hab
  · rw [Function.update_self]
    exact ByteMemory.read32_write32_self _ hv
  · have hne : b ≠ a := by rcases hab with hab | hab <;> omega
    rw [Function.update_of_ne hne]
    exact ByteMemory.read32_write32_apart _ (by rcases hab with hab | hab <;> omega)

/-- Setting a link changes no size. -/
theorem size_setNext (h : Heap) {H : List Nat} (hH : Spread H) {a b v : Nat} (ha : a ∈ H)
    (hb : b ∈ H) : (h.setNext a v).size b = h.size b := by
  apply ByteMemory.read32_write32_apart
  rcases hH a ha b hb with rfl | hab | hab <;> omega

/-- Setting a size changes no link. -/
theorem next_setSize (h : Heap) {H : List Nat} (hH : Spread H) {a b v : Nat} (ha : a ∈ H)
    (hb : b ∈ H) : (h.setSize a v).next b = h.next b := by
  apply ByteMemory.read32_write32_apart
  rcases hH a ha b hb with rfl | hab | hab <;> omega

/-- The sizes after one of them was set. -/
theorem size_setSize (h : Heap) {H : List Nat} (hH : Spread H) {a b v : Nat} (ha : a ∈ H)
    (hb : b ∈ H) (hv : v < 2 ^ 32) :
    (h.setSize a v).size b = Function.update h.size a v b := by
  rcases hH a ha b hb with rfl | hab
  · rw [Function.update_self]
    exact ByteMemory.read32_write32_self _ hv
  · have hne : b ≠ a := by rcases hab with hab | hab <;> omega
    rw [Function.update_of_ne hne]
    exact ByteMemory.read32_write32_apart _ (by rcases hab with hab | hab <;> omega)

/-- The headers after the upper half of a release. -/
theorem coalesceUpper_view (h : Heap) {H : List Nat} (hH : Spread H) {bp p : Nat}
    (hbp : bp ∈ H) (hp : p ∈ H) (hq : h.next p ∈ H) {b : Nat} (hb : b ∈ H) :
    ((h.coalesceUpper bp p).next b =
        Function.update h.next bp
          (if headerAt bp (h.size bp) = h.next p then h.next (h.next p) else h.next p) b) ∧
      ((h.coalesceUpper bp p).size b =
        if headerAt bp (h.size bp) = h.next p then
          Function.update h.size bp (u32 (h.size bp + h.size (h.next p))) b
        else h.size b) := by
  unfold coalesceUpper
  split
  · rename_i hmerge
    have hpn : (h.setSize bp (u32 (h.size bp + h.size (h.next p)))).next p = h.next p :=
      next_setSize h hH hbp hp
    have hqn : (h.setSize bp (u32 (h.size bp + h.size (h.next p)))).next (h.next p) =
        h.next (h.next p) := next_setSize h hH hbp hq
    simp only [hpn, hqn]
    constructor
    · rw [next_setNext _ hH hbp hb (next_lt h _)]
      by_cases hbb : b = bp
      · subst hbb
        simp
      · simp only [Function.update_of_ne hbb]
        exact next_setSize h hH hbp hb
    · rw [size_setNext _ hH hbp hb, size_setSize h hH hbp hb (u32_lt _)]
  · exact ⟨next_setNext h hH hbp hb (next_lt h _), size_setNext h hH hbp hb⟩

/-- The headers after the lower half of a release. -/
theorem coalesceLower_view (h : Heap) {H : List Nat} (hH : Spread H) {bp p : Nat}
    (hbp : bp ∈ H) (hp : p ∈ H) (hlt : bp < 2 ^ 32) {b : Nat} (hb : b ∈ H) :
    ((h.coalesceLower bp p).next b =
        Function.update h.next p (if headerAt p (h.size p) = bp then h.next bp else bp) b) ∧
      ((h.coalesceLower bp p).size b =
        if headerAt p (h.size p) = bp then
          Function.update h.size p (u32 (h.size p + h.size bp)) b
        else h.size b) := by
  unfold coalesceLower
  split
  · rename_i hmerge
    have hbn : (h.setSize p (u32 (h.size p + h.size bp))).next bp = h.next bp :=
      next_setSize h hH hp hbp
    simp only [hbn]
    constructor
    · rw [next_setNext _ hH hp hb (next_lt h _)]
      by_cases hbb : b = p
      · subst hbb
        simp
      · simp only [Function.update_of_ne hbb]
        exact next_setSize h hH hp hb
    · rw [size_setNext _ hH hp hb, size_setSize h hH hp hb (u32_lt _)]
  · exact ⟨next_setNext h hH hp hb hlt, size_setNext h hH hp hb⟩

/-! ## Bytes outside the headers -/

/-- Every byte outside the given headers is the same. -/
def SameOutside (h h' : Heap) (H : List Nat) : Prop :=
  ∀ x, (∀ a ∈ H, x < a ∨ a + 8 ≤ x) → h'.bytes x = h.bytes x

/-- Two heaps that agree outside of some headers, and a third one. -/
theorem SameOutside.trans {h h' h'' : Heap} {H : List Nat} (h1 : SameOutside h h' H)
    (h2 : SameOutside h' h'' H) : SameOutside h h'' H :=
  fun x hx => (h2 x hx).trans (h1 x hx)

/-- Setting a link writes its header only. -/
theorem sameOutside_setNext (h : Heap) {H : List Nat} {a v : Nat} (ha : a ∈ H) :
    SameOutside h (h.setNext a v) H := by
  intro x hx
  apply ByteMemory.write32_apply_of_ne
  have := hx a ha
  omega

/-- Setting a size writes its header only. -/
theorem sameOutside_setSize (h : Heap) {H : List Nat} {a v : Nat} (ha : a ∈ H) :
    SameOutside h (h.setSize a v) H := by
  intro x hx
  apply ByteMemory.write32_apply_of_ne
  have := hx a ha
  omega

/-- Joining the block above writes the header of the freed block only. -/
theorem sameOutside_coalesceUpper (h : Heap) {H : List Nat} {bp : Nat} (hbp : bp ∈ H) (p : Nat) :
    SameOutside h (h.coalesceUpper bp p) H := by
  unfold coalesceUpper
  split
  · exact (sameOutside_setSize h hbp).trans (sameOutside_setNext _ hbp)
  · exact sameOutside_setNext h hbp

/-- Joining the block below writes the header of that block only. -/
theorem sameOutside_coalesceLower (h : Heap) {H : List Nat} {p : Nat} (hp : p ∈ H) (bp : Nat) :
    SameOutside h (h.coalesceLower bp p) H := by
  unfold coalesceLower
  split
  · exact (sameOutside_setSize h hp).trans (sameOutside_setNext _ hp)
  · exact sameOutside_setNext h hp

end Heap

/-! ## The invariant -/

/-- The addresses of the headers: the sentinel and every block. -/
def headers (L : Layout) (ts : List (Tile Nat)) : List Nat :=
  L.base :: ts.map Tile.addr

/-- The raw bytes of the heap represent a tiling: sizes stand in the headers, and
the sentinel and the open blocks form the circular list. -/
structure HeapShape (L : Layout) (h : Heap) (ts : List (Tile Nat)) : Prop where
  tiled : Tiled L.heapStart ts h.heapCurrent
  units : ∀ t ∈ ts, 8 * h.size t.addr = t.len
  ring : IsRing h.next (L.base :: openAddrs ts)
  base_size : h.size L.base = 0
  freep_mem : h.freep ∈ L.base :: openAddrs ts
  coalesced : Coalesced ts
  top : h.heapCurrent ≤ 0xC03FF000
  heapMax : h.heapMax = 0xC03FF000
  hung : h.hung = false

/-- The sentinel lies below the heap. -/
theorem base_lt (L : Layout) : L.base + 8 ≤ L.heapStart := by
  have := L.base_hi
  have := L.heapStart_bounds.1
  omega

/-- The headers of a tiling whose blocks have room for one do not overlap. -/
theorem spread_of_tiled {L : Layout} {ts : List (Tile Nat)} {hi : Nat}
    (ht : Tiled L.heapStart ts hi) (hlen : ∀ t ∈ ts, 8 ≤ t.len) : Heap.Spread (headers L ts) := by
  intro a ha b hb
  simp only [headers, List.mem_cons, List.mem_map] at ha hb
  have hbase := base_lt L
  rcases ha with rfl | ⟨t, htm, rfl⟩ <;> rcases hb with rfl | ⟨u, hum, rfl⟩
  · exact .inl rfl
  · have := ht.bounds hum
    exact .inr (.inl (by omega))
  · have := ht.bounds htm
    exact .inr (.inr (by omega))
  · by_cases heq : u.addr = t.addr
    · exact .inl heq
    · have := hlen t htm
      have := hlen u hum
      rcases ht.apart htm hum (Ne.symm heq) with hle | hle
      · exact .inr (.inl (by omega))
      · exact .inr (.inr (by omega))

/-- The bytes of a block behind its header lie outside every header. -/
theorem payload_outside {L : Layout} {ts : List (Tile Nat)} {hi : Nat}
    (ht : Tiled L.heapStart ts hi) (hlen : ∀ t ∈ ts, 8 ≤ t.len) {t : Tile Nat} (htm : t ∈ ts)
    {x : Nat} (hlo : t.addr + 8 ≤ x) (hhi : x < t.addr + t.len) :
    ∀ a ∈ headers L ts, x < a ∨ a + 8 ≤ x := by
  intro a ha
  simp only [headers, List.mem_cons, List.mem_map] at ha
  have hbase := base_lt L
  have htb := ht.bounds htm
  rcases ha with rfl | ⟨u, hum, rfl⟩
  · omega
  · have := hlen u hum
    by_cases heq : u.addr = t.addr
    · omega
    · rcases ht.apart htm hum (Ne.symm heq) with hle | hle <;> omega

namespace HeapShape

variable {L : Layout} {h : Heap} {ts : List (Tile Nat)}

/-- Every block has room for its own header. -/
theorem bounds (hs : HeapShape L h ts) {t : Tile Nat} (ht : t ∈ ts) :
    L.base + 8 ≤ t.addr ∧ 8 ≤ t.len ∧ t.addr + t.len ≤ 0xC03FF000 ∧ 8 * h.size t.addr = t.len := by
  have hb := hs.tiled.bounds ht
  have hu := hs.units t ht
  have := base_lt L
  have := hs.top
  omega

/-- Headers do not overlap. -/
theorem spread (hs : HeapShape L h ts) : Heap.Spread (headers L ts) :=
  spread_of_tiled hs.tiled fun _ ht => (hs.bounds ht).2.1

/-- The free list is in the order of addresses. -/
theorem sorted (hs : HeapShape L h ts) : (L.base :: openAddrs ts).Pairwise (· < ·) := by
  refine List.pairwise_cons.2 ⟨fun a ha => ?_, hs.tiled.openAddrs_sorted⟩
  have := (hs.tiled.openAddrs_bounds ha).1
  have := base_lt L
  omega

/-- The nodes of the free list are headers. -/
theorem ring_subset (ts : List (Tile Nat)) {x : Nat} (hx : x ∈ L.base :: openAddrs ts) :
    x ∈ headers L ts := by
  rcases List.mem_cons.1 hx with rfl | hx
  · exact List.mem_cons_self
  · obtain ⟨t, ht, -, rfl⟩ := mem_openAddrs.1 hx
    exact List.mem_cons_of_mem _ (List.mem_map_of_mem ht)

/-- The free list is shorter than the search fuel. -/
theorem length_le (hs : HeapShape L h ts) : (L.base :: openAddrs ts).length ≤ 2 ^ 20 := by
  have hcount : ∀ (us : List (Tile Nat)) (lo hi : Nat), Tiled lo us hi →
      (∀ t ∈ us, 8 ≤ t.len) → lo + 8 * us.length ≤ hi := by
    intro us
    induction us with
    | nil =>
        intro lo hi hus _
        exact le_of_eq hus
    | cons t us ih =>
        intro lo hi hus hlen
        have hrest := ih _ _ hus.2.2 fun u hu => hlen u (by simp [hu])
        have := hlen t (by simp)
        simp only [List.length_cons]
        omega
  have hlen := hcount ts _ _ hs.tiled fun t ht => (hs.bounds ht).2.1
  have hopen : (openAddrs ts).length ≤ ts.length := List.length_filterMap_le _ _
  have := L.heapStart_bounds.1
  have := L.image_lo
  have := hs.top
  simp only [List.length_cons]
  omega

/-- No node is twice on the free list. -/
theorem nodup (hs : HeapShape L h ts) : (L.base :: openAddrs ts).Nodup :=
  hs.sorted.imp fun hlt => hlt.ne

/-- Every block has a header. -/
theorem addr_mem_headers {t : Tile Nat} (ht : t ∈ ts) : t.addr ∈ headers L ts :=
  List.mem_cons_of_mem _ (List.mem_map_of_mem ht)

/-- The size of a block says where the next one starts. -/
theorem headerAt_size (hs : HeapShape L h ts) {t : Tile Nat} (ht : t ∈ ts) :
    Heap.headerAt t.addr (h.size t.addr) = t.addr + t.len := by
  have := hs.bounds ht
  rw [Heap.headerAt, this.2.2.2, Heap.u32_of_lt (by omega)]

end HeapShape

/-! ## Release -/

section Release

variable {L : Layout} {h : Heap} {pre post : List (Tile Nat)} {t : Tile Nat} {o p : Nat}
  {A : List Nat}

/-- The node {lit}`p` is the last of the free list before the block {lit}`t`. -/
def LastBefore (L : Layout) (pre : List (Tile Nat)) (A : List Nat) (p : Nat) : Prop :=
  L.base :: openAddrs pre = A ++ [p]

/-- There is always a last free block before a place, or else the sentinel. -/
theorem exists_lastBefore (L : Layout) (pre : List (Tile Nat)) : ∃ A p, LastBefore L pre A p := by
  rcases List.eq_nil_or_concat' (L.base :: openAddrs pre) with hnil | ⟨A, p, h⟩
  · cases hnil
  · exact ⟨A, p, h⟩

/-- The last free block before a place is a node of the free list. -/
theorem LastBefore.mem (hp : LastBefore L pre A p) : p ∈ L.base :: openAddrs pre := by
  rw [hp]
  simp

/-- The last free block before a place has a header. -/
theorem LastBefore.mem_headers (hp : LastBefore L pre A p) (us : List (Tile Nat)) :
    p ∈ headers L (pre ++ us) := by
  apply HeapShape.ring_subset
  rw [openAddrs_append]
  exact List.mem_cons.2 ((List.mem_cons.1 hp.mem).imp_right (List.mem_append_left _))

namespace HeapShape

/-- The free list, split at the place of a live block. -/
theorem ring_eq (hs : HeapShape L h (pre ++ t :: post)) (ht : t.owner = some o)
    (hp : LastBefore L pre A p) : IsRing h.next (A ++ p :: openAddrs post) := by
  have hring := hs.ring
  rw [openAddrs_append, openAddrs_cons_owned ht, ← List.cons_append, hp] at hring
  simpa using hring

/-- The nodes before a block lie below it, the nodes behind it above its end. -/
theorem nodes_around (hs : HeapShape L h (pre ++ t :: post)) :
    (∀ x ∈ L.base :: openAddrs pre, x < t.addr) ∧
      ∀ x ∈ openAddrs post, t.addr + t.len ≤ x := by
  obtain ⟨hpre, -, hpost⟩ := hs.tiled.around
  refine ⟨fun x hx => ?_, fun x hx => (hpost.openAddrs_bounds hx).1⟩
  rcases List.mem_cons.1 hx with rfl | hx
  · have := (hs.bounds (t := t) (by simp)).1
    omega
  · exact (hpre.openAddrs_bounds hx).2

/-- The last free node before the block is the largest one below it. -/
theorem insertion (hs : HeapShape L h (pre ++ t :: post)) (ht : t.owner = some o)
    (hp : LastBefore L pre A p) :
    L.base < t.addr ∧ t.addr ∉ L.base :: openAddrs (pre ++ t :: post) ∧
      p ∈ L.base :: openAddrs (pre ++ t :: post) ∧ p < t.addr ∧
      ∀ y ∈ L.base :: openAddrs (pre ++ t :: post), y < t.addr → y ≤ p := by
  have hnodes := hs.nodes_around
  have hlist : openAddrs (pre ++ t :: post) = openAddrs pre ++ openAddrs post := by
    rw [openAddrs_append, openAddrs_cons_owned ht]
  have hlen : 0 < t.len := by
    have := hs.bounds (t := t) (by simp)
    omega
  have hmem : ∀ x, x ∈ L.base :: openAddrs (pre ++ t :: post) ↔
      x ∈ L.base :: openAddrs pre ∨ x ∈ openAddrs post := by
    intro x
    rw [hlist, ← List.cons_append, List.mem_append]
  have hpA : ∀ x ∈ A, x < p := by
    have hsort : (A ++ [p]).Pairwise (· < ·) := by
      have := hs.sorted
      rw [hlist, ← List.cons_append, hp] at this
      exact (List.pairwise_append.1 this).1
    exact fun x hx => (List.pairwise_append.1 hsort).2.2 x hx p (by simp)
  refine ⟨hnodes.1 _ (by simp), fun hin => ?_, (hmem p).2 (.inl hp.mem), hnodes.1 p hp.mem,
    fun y hy hyt => ?_⟩
  · rcases (hmem _).1 hin with hin | hin
    · exact lt_irrefl _ (hnodes.1 _ hin)
    · have := hnodes.2 _ hin
      omega
  · rcases (hmem _).1 hy with hy | hy
    · rw [hp, List.mem_append, List.mem_singleton] at hy
      rcases hy with hy | rfl
      · exact (hpA y hy).le
      · exact le_rfl
    · have := hnodes.2 _ hy
      omega

/-- The search of {lit}`kfree` ends within one lap at the last free node before the block. -/
theorem seek_kfree (hs : HeapShape L h (pre ++ t :: post)) (ht : t.owner = some o)
    (hp : LastBefore L pre A p) {n : Nat}
    (hn : (L.base :: openAddrs (pre ++ t :: post)).length ≤ n) :
    seek h.next (insertsAfter h.next t.addr) n h.freep = some p := by
  obtain ⟨hbase, hnot, hmem, hlt, hbest⟩ := hs.insertion ht hp
  exact hs.ring.seek_insertion hs.sorted hbase hnot hmem hlt hbest hs.freep_mem hn

/-- The search stops at no other node. -/
theorem insertsAfter_iff (hs : HeapShape L h (pre ++ t :: post)) (ht : t.owner = some o)
    (hp : LastBefore L pre A p) {y : Nat} (hy : y ∈ L.base :: openAddrs (pre ++ t :: post)) :
    insertsAfter h.next t.addr y = true ↔ y = p := by
  obtain ⟨hbase, hnot, hmem, hlt, hbest⟩ := hs.insertion ht hp
  rw [hs.ring.insertsAfter_iff hs.sorted hbase hnot hy]
  constructor
  · rintro ⟨hyt, hmax⟩
    exact le_antisymm (hbest y hy hyt) (hmax p hmem hlt)
  · rintro rfl
    exact ⟨hlt, hbest⟩

/-- The node behind {lit}`p` starts right behind the block exactly when the next
block is open. -/
theorem next_open (hs : HeapShape L h (pre ++ t :: post)) (ht : t.owner = some o)
    (hp : LastBefore L pre A p) {u : Tile Nat} {post' : List (Tile Nat)} (hu : post = u :: post')
    (huo : u.owner = none) : h.next p = u.addr ∧ u.addr = t.addr + t.len := by
  subst hu
  have hring := hs.ring_eq ht hp
  rw [openAddrs_cons_open huo] at hring
  exact ⟨hring.next_eq u.addr (by simp), hs.tiled.around.2.2.1⟩

/-- When the block above is live, the next free block does not start at the end of this one. -/
theorem next_closed (hs : HeapShape L h (pre ++ t :: post)) (ht : t.owner = some o)
    (hp : LastBefore L pre A p) (hu : ∀ u ∈ post.head?, u.owner.isSome) :
    h.next p ≠ t.addr + t.len := by
  have hnodes := hs.nodes_around
  have hring := hs.ring_eq ht hp
  intro heq
  cases post with
  | nil =>
      have hmem : h.next p ∈ A ++ p :: openAddrs [] := hring.next_mem (by simp)
      rw [openAddrs_nil, ← hp] at hmem
      have := hnodes.1 _ hmem
      omega
  | cons u post' =>
      obtain ⟨v, hv⟩ := Option.isSome_iff_exists.1 (hu u rfl)
      have hmem : h.next p ∈ A ++ p :: openAddrs (u :: post') := hring.next_mem (by simp)
      rw [show A ++ p :: openAddrs (u :: post') = (A ++ [p]) ++ openAddrs (u :: post') by simp,
        ← hp, List.mem_append, openAddrs_cons_owned hv] at hmem
      obtain ⟨-, -, haddr, hlen, hpost⟩ := hs.tiled.around
      rcases hmem with hmem | hmem
      · have := hnodes.1 _ hmem
        omega
      · have := (hpost.openAddrs_bounds hmem).1
        omega

end HeapShape

/-- Between the two halves of a release: the open block {lit}`m` has its final upper
end and successor, and only the link from {lit}`p` is missing. -/
structure Pending (L : Layout) (h : Heap) (pre : List (Tile Nat)) (m : Tile Nat)
    (post : List (Tile Nat)) (A : List Nat) (p : Nat) : Prop where
  tiled : Tiled L.heapStart (pre ++ m :: post) h.heapCurrent
  units : ∀ t ∈ pre ++ m :: post, 8 * h.size t.addr = t.len
  ring : IsRing (Function.update h.next p m.addr) (A ++ p :: m.addr :: openAddrs post)
  base_size : h.size L.base = 0
  last : LastBefore L pre A p
  open_owner : m.owner = none
  spread : Heap.Spread (headers L (pre ++ m :: post))
  top : h.heapCurrent ≤ 0xC03FF000

/-- Joining the block above makes no new headers. -/
theorem headers_mergeUp_subset (L : Layout) (pre : List (Tile Nat)) (t : Tile Nat)
    (post : List (Tile Nat)) :
    headers L (pre ++ (mergeUp t post).1 :: (mergeUp t post).2) ⊆ headers L (pre ++ t :: post) := by
  intro x hx
  rcases mergeUp_cases t post with ⟨u, post', rfl, -, hm⟩ | ⟨-, hm⟩ <;> rw [hm] at hx <;>
    simp only [headers, List.map_append, List.map_cons, List.mem_cons, List.mem_append] at hx ⊢ <;>
    tauto

/-- Fewer headers do not overlap either. -/
theorem Heap.Spread.subset {H H' : List Nat} (h : Heap.Spread H) (hsub : H' ⊆ H) :
    Heap.Spread H' :=
  fun a ha b hb => h a (hsub ha) b (hsub hb)

/-- Joining the block above does not move the end of the heap. -/
@[simp]
theorem coalesceUpper_heapCurrent (h : Heap) (bp p : Nat) :
    (h.coalesceUpper bp p).heapCurrent = h.heapCurrent := by
  unfold Heap.coalesceUpper
  split <;> rfl

/-- Joining the block below does not move the end of the heap. -/
@[simp]
theorem coalesceLower_heapCurrent (h : Heap) (bp p : Nat) :
    (h.coalesceLower bp p).heapCurrent = h.heapCurrent := by
  unfold Heap.coalesceLower
  split <;> rfl

/-- Joining the block above does not move the limit of the heap. -/
@[simp]
theorem coalesceUpper_heapMax (h : Heap) (bp p : Nat) :
    (h.coalesceUpper bp p).heapMax = h.heapMax := by
  unfold Heap.coalesceUpper
  split <;> rfl

/-- Joining the block below does not move the limit of the heap. -/
@[simp]
theorem coalesceLower_heapMax (h : Heap) (bp p : Nat) :
    (h.coalesceLower bp p).heapMax = h.heapMax := by
  unfold Heap.coalesceLower
  split <;> rfl

/-- Joining the block above searches nothing. -/
@[simp]
theorem coalesceUpper_hung (h : Heap) (bp p : Nat) : (h.coalesceUpper bp p).hung = h.hung := by
  unfold Heap.coalesceUpper
  split <;> rfl

/-- Joining the block below searches nothing. -/
@[simp]
theorem coalesceLower_hung (h : Heap) (bp p : Nat) : (h.coalesceLower bp p).hung = h.hung := by
  unfold Heap.coalesceLower
  split <;> rfl

/-- {lit}`kfree` does not move the limit of the heap. -/
@[simp]
theorem kfree_heapMax (h : Heap) (ptr : Nat) : (h.kfree ptr).heapMax = h.heapMax := by
  unfold Heap.kfree
  by_cases hz : ptr = 0
  · rw [if_pos hz]
  · rw [if_neg hz]
    generalize u32 (ptr + 2 ^ 32 - 8) = bp
    cases hseek : seek h.next (insertsAfter h.next bp) searchFuel h.freep with
    | none => simp only [hseek]
    | some p => simp only [hseek, coalesceLower_heapMax, coalesceUpper_heapMax]

/-- {lit}`kfree` does not move the end of the heap. -/
@[simp]
theorem kfree_heapCurrent (h : Heap) (ptr : Nat) : (h.kfree ptr).heapCurrent = h.heapCurrent := by
  unfold Heap.kfree
  by_cases hz : ptr = 0
  · rw [if_pos hz]
  · rw [if_neg hz]
    generalize u32 (ptr + 2 ^ 32 - 8) = bp
    cases hseek : seek h.next (insertsAfter h.next bp) searchFuel h.freep with
    | none => simp only [hseek]
    | some p => simp only [hseek, coalesceLower_heapCurrent, coalesceUpper_heapCurrent]

/-- The nodes of the free list other than {lit}`p`, seen from the released block. -/
theorem HeapShape.other_nodes (hs : HeapShape L h (pre ++ t :: post)) (ht : t.owner = some o)
    (hp : LastBefore L pre A p) {x : Nat} (hx : x ∈ A ++ openAddrs post) :
    x ∈ headers L (pre ++ t :: post) ∧ x ≠ t.addr ∧ x ≠ p := by
  have hnodes := hs.nodes_around
  have hlen := hs.tiled.around.2.1
  have hlist : L.base :: openAddrs (pre ++ t :: post) = A ++ p :: openAddrs post := by
    rw [openAddrs_append, openAddrs_cons_owned ht, ← List.cons_append, hp, List.append_assoc]
    rfl
  have hsort := hs.sorted
  rw [hlist, List.pairwise_append, List.pairwise_cons] at hsort
  refine ⟨HeapShape.ring_subset _ ?_, ?_, ?_⟩
  · rw [hlist]
    rcases List.mem_append.1 hx with hx | hx
    · exact List.mem_append_left _ hx
    · exact List.mem_append_right _ (List.mem_cons_of_mem _ hx)
  · rcases List.mem_append.1 hx with hx | hx
    · refine (hnodes.1 x ?_).ne
      rw [hp]
      exact List.mem_append_left _ hx
    · have := hnodes.2 x hx
      omega
  · rcases List.mem_append.1 hx with hx | hx
    · exact (hsort.2.2 x hx p List.mem_cons_self).ne
    · exact (hsort.2.1.1 x hx).ne'

/-- The headers after the upper half, with the merge decided by the tiling. -/
theorem HeapShape.coalesceUpper_headers (hs : HeapShape L h (pre ++ t :: post))
    (ht : t.owner = some o) (hp : LastBefore L pre A p) {b : Nat}
    (hb : b ∈ headers L (pre ++ t :: post)) :
    (b ≠ t.addr → (h.coalesceUpper t.addr p).next b = h.next b ∧
        (h.coalesceUpper t.addr p).size b = h.size b) ∧
      (∀ u post', post = u :: post' → u.owner = none →
        (h.coalesceUpper t.addr p).next t.addr = h.next u.addr ∧
        8 * (h.coalesceUpper t.addr p).size t.addr = t.len + u.len) ∧
      ((∀ u ∈ post.head?, u.owner.isSome) →
        (h.coalesceUpper t.addr p).next t.addr = h.next p ∧
        8 * (h.coalesceUpper t.addr p).size t.addr = t.len) := by
  have htm : t ∈ pre ++ t :: post := by simp
  have htmem : t.addr ∈ headers L (pre ++ t :: post) := HeapShape.addr_mem_headers htm
  have hqmem : h.next p ∈ headers L (pre ++ t :: post) := by
    refine HeapShape.ring_subset _ (hs.ring.next_mem ?_)
    rw [openAddrs_append, openAddrs_cons_owned ht, ← List.cons_append]
    exact List.mem_append_left _ hp.mem
  have hview := fun b hb =>
    h.coalesceUpper_view hs.spread htmem (hp.mem_headers (t :: post)) hqmem (b := b) hb
  rw [hs.headerAt_size htm] at hview
  refine ⟨fun hne => ?_, fun u post' hpost hu => ?_, fun hu => ?_⟩
  · rw [(hview b hb).1, (hview b hb).2, Function.update_of_ne hne, Function.update_of_ne hne,
      ite_self]
    exact ⟨rfl, rfl⟩
  · obtain ⟨hnext, haddr⟩ := hs.next_open ht hp hpost hu
    have humem : u ∈ pre ++ t :: post := by simp [hpost]
    have hub := hs.bounds humem
    have htb := hs.bounds htm
    rw [(hview _ htmem).1, (hview _ htmem).2, hnext, haddr, if_pos rfl, if_pos rfl,
      Function.update_self, Function.update_self, ← haddr, Heap.u32_of_lt (by omega)]
    exact ⟨rfl, by omega⟩
  · have hne := (hs.next_closed ht hp hu).symm
    rw [(hview _ htmem).1, (hview _ htmem).2, if_neg hne, if_neg hne, Function.update_self]
    exact ⟨rfl, hs.units t htm⟩

/-- The upper half of a release. -/
theorem HeapShape.coalesceUpper (hs : HeapShape L h (pre ++ t :: post)) (ht : t.owner = some o)
    (hp : LastBefore L pre A p) :
    Pending L (h.coalesceUpper t.addr p) pre (mergeUp t post).1 (mergeUp t post).2 A p := by
  have hring := hs.ring_eq ht hp
  have hheaders := fun b hb => hs.coalesceUpper_headers ht hp (b := b) hb
  have htp : t.addr ≠ p := (hs.nodes_around.1 p hp.mem).ne'
  have hbase : L.base ≠ t.addr := (hs.nodes_around.1 L.base List.mem_cons_self).ne
  have htmem : t.addr ∈ headers L (pre ++ t :: post) := HeapShape.addr_mem_headers (by simp)
  -- A block other than the released one keeps its size.
  have hother : ∀ x ∈ pre ++ post, 8 * (h.coalesceUpper t.addr p).size x.addr = x.len := by
    intro x hx
    have hmem : x ∈ pre ++ t :: post := by
      simp only [List.mem_append, List.mem_cons] at hx ⊢
      tauto
    have hne : x.addr ≠ t.addr := by
      obtain ⟨hpre, hlen, hpost⟩ := hs.tiled.around
      rcases List.mem_append.1 hx with hx | hx
      · have := hpre.bounds hx
        omega
      · have := hpost.bounds hx
        omega
    rw [((hheaders _ (HeapShape.addr_mem_headers hmem)).1 hne).2]
    exact hs.units x hmem
  have hsame : ∀ x ∈ A ++ openAddrs post,
      Function.update (h.coalesceUpper t.addr p).next p t.addr x = h.next x := by
    intro x hx
    obtain ⟨hmem, hne, hxp⟩ := hs.other_nodes ht hp hx
    rw [Function.update_of_ne hxp, ((hheaders x hmem).1 hne).1]
  refine ⟨by simpa using hs.tiled.mergeUp, ?_, ?_, ?_, hp, mergeUp_owner t post,
    hs.spread.subset (headers_mergeUp_subset L pre t post), by simpa using hs.top⟩
  · intro x hx
    rcases mergeUp_cases t post with ⟨u, post', rfl, hu, hm⟩ | ⟨hclosed, hm⟩ <;> rw [hm] at hx <;>
      rcases List.mem_append.1 hx with hx | hx
    · exact hother x (List.mem_append_left _ hx)
    · rcases List.mem_cons.1 hx with rfl | hx
      · exact ((hheaders _ htmem).2.1 u post' rfl hu).2
      · exact hother x (by simp [hx])
    · exact hother x (List.mem_append_left _ hx)
    · rcases List.mem_cons.1 hx with rfl | hx
      · exact ((hheaders _ htmem).2.2 hclosed).2
      · exact hother x (List.mem_append_right _ hx)
  · have hlink : Function.update (h.coalesceUpper t.addr p).next p t.addr p = t.addr :=
      Function.update_self ..
    have hskip : Function.update (h.coalesceUpper t.addr p).next p t.addr t.addr =
        (h.coalesceUpper t.addr p).next t.addr := Function.update_of_ne htp ..
    rcases mergeUp_cases t post with ⟨u, post', rfl, hu, hm⟩ | ⟨hclosed, hm⟩ <;> rw [hm]
    · rw [openAddrs_cons_open hu] at hring hsame
      refine hring.replace_after hlink ?_ fun x hx => hsame x ?_
      · rw [hskip, ((hheaders _ htmem).2.1 u post' rfl hu).1]
      · simp only [List.mem_append, List.mem_cons] at hx ⊢
        tauto
    · refine hring.insert_after hlink ?_ hsame
      rw [hskip, ((hheaders _ htmem).2.2 hclosed).1]
  · rw [((hheaders _ List.mem_cons_self).1 hbase).2]
    exact hs.base_size

namespace Pending

variable {m : Tile Nat}

/-- While a block is being freed, the sizes still say where the blocks end. -/
theorem size_node (hp : Pending L h pre m post A p) {x : Tile Nat} (hx : x ∈ pre ++ m :: post) :
    Heap.headerAt x.addr (h.size x.addr) = x.addr + x.len ∧ x.addr + x.len ≤ 0xC03FF000 := by
  have := hp.tiled.bounds hx
  have := hp.units x hx
  have := hp.top
  rw [Heap.headerAt, Heap.u32_of_lt (by omega)]
  omega

/-- The sentinel lies below the block that is freed. -/
theorem base_lt_addr (hp : Pending L h pre m post A p) : L.base + 8 ≤ m.addr := by
  have := (hp.tiled.bounds (t := m) (by simp)).1
  have := base_lt L
  omega

/-- The block before is open exactly when {lit}`p` ends where {lit}`m` starts. -/
theorem last_open (hp : Pending L h pre m post A p) {pre' : List (Tile Nat)} {l : Tile Nat}
    (hl : pre = pre' ++ [l]) (hlo : l.owner = none) :
    p = l.addr ∧ A = L.base :: openAddrs pre' ∧ Heap.headerAt p (h.size p) = m.addr := by
  subst hl
  have hlast := hp.last
  rw [LastBefore, openAddrs_append, openAddrs_cons_open hlo, openAddrs_nil, ← List.cons_append]
    at hlast
  obtain ⟨rfl, hlp⟩ := List.append_inj' hlast rfl
  obtain rfl : l.addr = p := by simpa using hlp
  have hsize := hp.size_node (x := l) (by simp)
  have hnext : m.addr = l.addr + l.len := by
    have htiled : Tiled L.heapStart (pre' ++ l :: m :: post) h.heapCurrent := by
      simpa using hp.tiled
    exact htiled.around.2.2.1
  exact ⟨rfl, rfl, by omega⟩

/-- When the block below is live, the last free block does not end at this one. -/
theorem last_closed (hp : Pending L h pre m post A p)
    (hl : ∀ l ∈ pre.getLast?, l.owner.isSome) : Heap.headerAt p (h.size p) ≠ m.addr := by
  have hbase := hp.base_lt_addr
  rcases List.mem_cons.1 hp.last.mem with rfl | hmem
  · have := L.base_hi
    have := L.image_hi
    rw [hp.base_size, Heap.headerAt, Heap.u32_of_lt (by omega)]
    omega
  · obtain ⟨x, hx, hxo, rfl⟩ := mem_openAddrs.1 hmem
    have hsize := hp.size_node (x := x) (by simp [hx])
    obtain ⟨pre1, pre2, rfl⟩ := List.append_of_mem hx
    intro heq
    cases pre2 with
    | nil => simpa [hxo] using hl x (by simp)
    | cons y pre2 =>
        have htiled : Tiled L.heapStart (pre1 ++ x :: y :: (pre2 ++ m :: post)) h.heapCurrent := by
          simpa using hp.tiled
        obtain ⟨-, -, hy, hylen, hrest⟩ := htiled.around
        have := hrest.bounds (t := m) (by simp)
        omega

/-- The block that is freed is not on the list yet. -/
theorem ne_addr (hp : Pending L h pre m post A p) : p ≠ m.addr := by
  have hmem := hp.last.mem
  have := hp.base_lt_addr
  rcases List.mem_cons.1 hmem with rfl | hmem
  · omega
  · exact (hp.tiled.around.1.openAddrs_bounds hmem).2.ne

/-- The blocks and nodes other than an open block {lit}`l` right before {lit}`m`. -/
theorem ne_lower {pre' : List (Tile Nat)} {l : Tile Nat}
    (hp : Pending L h (pre' ++ [l]) m post A p) :
    (∀ x ∈ pre' ++ post, x.addr ≠ l.addr) ∧
      ∀ x ∈ (L.base :: openAddrs pre') ++ openAddrs post, x ≠ l.addr := by
  have htiled : Tiled L.heapStart (pre' ++ l :: m :: post) h.heapCurrent := by
    simpa using hp.tiled
  obtain ⟨hpre, hlen, -, -, hpost⟩ := htiled.around
  have hbase := base_lt L
  have hle := hpre.le
  refine ⟨fun x hx => ?_, fun x hx => ?_⟩
  · rcases List.mem_append.1 hx with hx | hx
    · have := hpre.bounds hx
      omega
    · have := hpost.bounds hx
      omega
  · rcases List.mem_append.1 hx with hx | hx
    · rcases List.mem_cons.1 hx with rfl | hx
      · omega
      · exact (hpre.openAddrs_bounds hx).2.ne
    · have := (hpost.openAddrs_bounds hx).1
      omega

/-- The lower half of a release. -/
theorem coalesceLower (hp : Pending L h pre m post A p) :
    (∀ t ∈ mergeDown pre m ++ post, 8 * (h.coalesceLower m.addr p).size t.addr = t.len) ∧
      IsRing (h.coalesceLower m.addr p).next (L.base :: openAddrs (mergeDown pre m ++ post)) ∧
      (h.coalesceLower m.addr p).size L.base = 0 ∧
      p ∈ L.base :: openAddrs (mergeDown pre m ++ post) := by
  have hmb := hp.size_node (x := m) (by simp)
  have hmmem : m.addr ∈ headers L (pre ++ m :: post) := HeapShape.addr_mem_headers (by simp)
  have hview := fun b hb => h.coalesceLower_view hp.spread hmmem (hp.last.mem_headers (m :: post))
    (by omega) (b := b) hb
  have hnodes : ∀ x ∈ A ++ p :: m.addr :: openAddrs post, x ∈ headers L (pre ++ m :: post) := by
    intro x hx
    apply HeapShape.ring_subset
    rw [openAddrs_append, openAddrs_cons_open hp.open_owner, ← List.cons_append, hp.last]
    simpa using hx
  have hkeep : ∀ x ∈ headers L (pre ++ m :: post), x ≠ p →
      (h.coalesceLower m.addr p).size x = h.size x ∧
      (h.coalesceLower m.addr p).next x = h.next x := by
    intro x hx hne
    rw [(hview x hx).1, (hview x hx).2, Function.update_of_ne hne, Function.update_of_ne hne,
      ite_self]
    exact ⟨rfl, rfl⟩
  rcases mergeDown_cases pre m with ⟨pre', l, rfl, hlo, hm⟩ | ⟨hclosed, hm⟩ <;> rw [hm]
  · -- The block joins its lower neighbour, which is the node {lit}`p` itself.
    obtain ⟨rfl, rfl, hjoin⟩ := hp.last_open rfl hlo
    have hlmem : l.addr ∈ headers L (pre' ++ [l] ++ m :: post) :=
      hp.last.mem_headers (m :: post)
    have hlb := hp.size_node (x := l) (by simp)
    have hunits := hp.units
    refine ⟨fun x hx => ?_, ?_, ?_, ?_⟩
    · have hxcases : x ∈ pre' ++ post ∨ x = ⟨l.addr, l.len + m.len, m.owner⟩ := by
        simp only [List.mem_append, List.mem_singleton] at hx ⊢
        tauto
      rcases hxcases with hx | rfl
      · have hmem : x ∈ pre' ++ [l] ++ m :: post := by
          simp only [List.mem_append, List.mem_cons] at hx ⊢
          tauto
        rw [(hkeep _ (HeapShape.addr_mem_headers hmem) (hp.ne_lower.1 x hx)).1]
        exact hunits x hmem
      · have hul := hunits l (by simp)
        have hum := hunits m (by simp)
        rw [(hview _ hlmem).2, if_pos hjoin, Function.update_self, Heap.u32_of_lt (by omega)]
        simp only
        omega
    · have hring := hp.ring
      have hgoal : IsRing (h.coalesceLower m.addr l.addr).next
          ((L.base :: openAddrs pre') ++ l.addr :: openAddrs post) := by
        refine hring.remove_after ?_ fun x hx => ?_
        · rw [(hview _ hlmem).1, if_pos hjoin, Function.update_self,
            Function.update_of_ne hp.ne_addr.symm]
        · have hxl : x ≠ l.addr := hp.ne_lower.2 x hx
          have hxmem := hnodes x (by
            simp only [List.mem_append, List.mem_cons] at hx ⊢
            tauto)
          rw [(hkeep x hxmem hxl).2, Function.update_of_ne hxl]
      rw [openAddrs_append, openAddrs_append, openAddrs_cons_open (by simpa using hp.open_owner)]
      simpa using hgoal
    · rw [(hkeep _ List.mem_cons_self (hp.ne_lower.2 L.base (by simp))).1]
      exact hp.base_size
    · rw [openAddrs_append, openAddrs_append, openAddrs_cons_open (by simpa using hp.open_owner)]
      simp
  · -- The block becomes a node of its own behind {lit}`p`.
    have hapart := hp.last_closed hclosed
    have hsize : ∀ x ∈ headers L (pre ++ m :: post),
        (h.coalesceLower m.addr p).size x = h.size x := by
      intro x hx
      rw [(hview x hx).2, if_neg hapart]
    have hnext : ∀ x ∈ headers L (pre ++ m :: post),
        (h.coalesceLower m.addr p).next x = Function.update h.next p m.addr x := by
      intro x hx
      rw [(hview x hx).1, if_neg hapart]
    have hlist : L.base :: openAddrs (pre ++ [m] ++ post) = A ++ p :: m.addr :: openAddrs post := by
      rw [openAddrs_append, openAddrs_append, openAddrs_cons_open hp.open_owner, openAddrs_nil,
        ← List.cons_append, ← List.cons_append, hp.last]
      simp
    refine ⟨fun x hx => ?_, ?_, ?_, ?_⟩
    · have hmem : x ∈ pre ++ m :: post := by simpa using hx
      rw [hsize _ (HeapShape.addr_mem_headers hmem)]
      exact hp.units x hmem
    · rw [hlist]
      exact hp.ring.congr fun x hx => hnext x (hnodes x hx)
    · rw [hsize _ List.mem_cons_self]
      exact hp.base_size
    · rw [hlist]
      simp

end Pending

/-- What {lit}`kfree` computes on an owned block. -/
theorem HeapShape.kfree_eq (hs : HeapShape L h (pre ++ t :: post)) (ht : t.owner = some o)
    (hp : LastBefore L pre A p) :
    h.kfree (t.addr + 8) =
      { (h.coalesceUpper t.addr p).coalesceLower t.addr p with
        freep := p
        live := ((h.coalesceUpper t.addr p).coalesceLower t.addr p).live.filter
          fun b => b.1 ≠ t.addr + 8 } := by
  have hb := hs.bounds (t := t) (by simp)
  have hbp : u32 (t.addr + 8 + 2 ^ 32 - 8) = t.addr := by
    simp only [u32]
    omega
  have hfuel := hs.length_le.trans (show 2 ^ 20 ≤ searchFuel by norm_num [searchFuel])
  simp only [Heap.kfree, hbp, hs.seek_kfree ht hp hfuel]
  rw [if_neg (by omega)]

/-- Releasing an owned block gives the tiling in which it is released, and writes
only headers. -/
theorem HeapShape.kfree (hs : HeapShape L h (pre ++ t :: post)) (ht : t.owner = some o) :
    HeapShape L (h.kfree (t.addr + 8)) (release pre t post) ∧
      h.SameOutside (h.kfree (t.addr + 8)) (headers L (pre ++ t :: post)) := by
  obtain ⟨A, p, hp⟩ := exists_lastBefore L pre
  have hpend := hs.coalesceUpper ht hp
  have hlower := hpend.coalesceLower
  rw [mergeUp_addr] at hlower
  obtain ⟨hunits, hring, hbase, hfreep⟩ := hlower
  have htmem : t.addr ∈ headers L (pre ++ t :: post) := HeapShape.addr_mem_headers (by simp)
  have hcur : ((h.coalesceUpper t.addr p).coalesceLower t.addr p).heapCurrent = h.heapCurrent := by
    simp
  have hmax : ((h.coalesceUpper t.addr p).coalesceLower t.addr p).heapMax = 0xC03FF000 := by
    rw [coalesceLower_heapMax, coalesceUpper_heapMax, hs.heapMax]
  have hhung : ((h.coalesceUpper t.addr p).coalesceLower t.addr p).hung = false := by
    rw [coalesceLower_hung, coalesceUpper_hung, hs.hung]
  have hsame : h.SameOutside ((h.coalesceUpper t.addr p).coalesceLower t.addr p)
      (headers L (pre ++ t :: post)) := by
    intro x hx
    have hlow := Heap.sameOutside_coalesceLower (h.coalesceUpper t.addr p)
      (hp.mem_headers (t :: post)) t.addr x hx
    exact hlow.trans (Heap.sameOutside_coalesceUpper h htmem p x hx)
  rw [hs.kfree_eq ht hp]
  clear hpend
  generalize (h.coalesceUpper t.addr p).coalesceLower t.addr p = g at *
  refine ⟨⟨?_, hunits, hring, hbase, hfreep, hs.coalesced.release, ?_, hmax, hhung⟩, hsame⟩
  · simpa [hcur] using hs.tiled.release
  · simpa [hcur] using hs.top

/-- A release moves neither the end of the heap nor any other live pointer. -/
theorem HeapShape.kfree_frame (hs : HeapShape L h (pre ++ t :: post)) (ht : t.owner = some o) :
    (h.kfree (t.addr + 8)).heapCurrent = h.heapCurrent ∧
      (h.kfree (t.addr + 8)).live = h.live.filter fun b => b.1 ≠ t.addr + 8 := by
  obtain ⟨A, p, hp⟩ := exists_lastBefore L pre
  rw [hs.kfree_eq ht hp]
  refine ⟨by simp, ?_⟩
  have hlive : ((h.coalesceUpper t.addr p).coalesceLower t.addr p).live = h.live := by
    unfold Heap.coalesceUpper Heap.coalesceLower
    split <;> split <;> rfl
  simp only [hlive]

end Release

end SoKernel
