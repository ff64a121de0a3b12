import SoKernel.Library.CircularList
import SoKernel.Memory.Paging

/-!
# The kernel heap

This module models {lit}`memory/kheap.c`, a next-fit allocator in the manner of
Kernighan and Ritchie over raw header memory.  A header is two words: the next
free block and the size of the block in headers of 8 bytes.  The free blocks
form a circular list through the static sentinel {lit}`base`.

The heap is read and written through kernel virtual addresses; its bytes are a
component of their own, and mapping a fresh page shows there the bytes of the
frame that now backs it.  The two search loops of the source have no counter:
they run here on more fuel than there are addresses, and the history field
{lit}`hung` records that a search did not end.  The history field {lit}`live`
lists the pointers returned and not yet released, each with the size asked for.
-/

namespace SoKernel

/-- The static state of the heap, with the bytes of the kernel window. -/
structure Heap where
  bytes : ByteMemory
  freep : Nat
  heapCurrent : Nat
  heapMax : Nat
  hung : Bool
  live : List (Nat × Nat)

/-- The memory side of the kernel: machine memory and heap. -/
structure Store where
  mem : Memory
  heap : Heap

/-- More steps than a search over distinct 32-bit addresses can take. -/
@[irreducible]
def searchFuel : Nat :=
  2 ^ 32

namespace Heap

/-! ## Headers -/

/-- {lit}`p->next`. -/
def next (h : Heap) (p : Nat) : Nat :=
  h.bytes.read32 p

/-- {lit}`p->size`. -/
def size (h : Heap) (p : Nat) : Nat :=
  h.bytes.read32 (p + 4)

/-- {lit}`p->next = v`. -/
def setNext (h : Heap) (p v : Nat) : Heap :=
  { h with bytes := h.bytes.write32 p v }

/-- {lit}`p->size = v`. -/
def setSize (h : Heap) (p v : Nat) : Heap :=
  { h with bytes := h.bytes.write32 (p + 4) v }

/-- {lit}`p + n` for a header pointer. -/
def headerAt (p n : Nat) : Nat :=
  u32 (p + 8 * n)

/-- Clear the bytes of a range, one by one. -/
def zeroBytes (h : Heap) (p n : Nat) : Heap :=
  forRange n (fun i h => { h with bytes := Function.update h.bytes (p + i) 0 }) h

/-! ## Release -/

/-- Merge the block {lit}`bp` with the free block behind it, or link it there. -/
def coalesceUpper (h : Heap) (bp p : Nat) : Heap :=
  if headerAt bp (h.size bp) = h.next p then
    let h := h.setSize bp (u32 (h.size bp + h.size (h.next p)))
    h.setNext bp (h.next (h.next p))
  else h.setNext bp (h.next p)

/-- Merge the block {lit}`bp` into the free block before it, or link it behind that. -/
def coalesceLower (h : Heap) (bp p : Nat) : Heap :=
  if headerAt p (h.size p) = bp then
    let h := h.setSize p (u32 (h.size p + h.size bp))
    h.setNext p (h.next bp)
  else h.setNext p bp

/-- {lit}`kfree`: find the place of the block in the ordered list, merge it with its
neighbours and leave {lit}`freep` before it. -/
def kfree (h : Heap) (ptr : Nat) : Heap :=
  if ptr = 0 then h
  else
    let bp := u32 (ptr + 2 ^ 32 - 8)
    match seek h.next (insertsAfter h.next bp) searchFuel h.freep with
    | none => { h with hung := true }
    | some p =>
        let h := (h.coalesceUpper bp p).coalesceLower bp p
        { h with freep := p, live := h.live.filter fun b => b.1 ≠ ptr }

/-- The page at a heap address shows the bytes of the frame now mapped there. -/
def showFrame (h : Heap) (phys : ByteMemory) (addr frame : Nat) : Heap :=
  { h with bytes := fun x =>
      if x / 4096 = addr / 4096 then phys (frame + x % 4096) else h.bytes x }

/-- {lit}`kheap_init`. -/
def kheapInit (h : Heap) (L : Layout) : Heap :=
  { h with heapCurrent := L.heapStart, heapMax := 0xC03FF000 }

/-- The block that a fitting free block {lit}`p` gives up, and the heap without it:
the whole block, or its last {lit}`nunits` headers. -/
def takeBlock (h : Heap) (nunits prevp p : Nat) : Nat × Heap :=
  if h.size p = nunits then (p, h.setNext prevp (h.next p))
  else
    let h := h.setSize p (h.size p - nunits)
    let q := headerAt p (h.size p)
    (q, h.setSize q nunits)

/-- The heap on which the search of {lit}`kmalloc` starts: the first call sets up
the empty circular list. -/
def prepared (L : Layout) (h : Heap) : Heap :=
  if h.freep = 0 then { (h.setNext L.base L.base).setSize L.base 0 with freep := L.base } else h

end Heap

/-- The number of headers a request needs, its own header included. -/
def unitsFor (nbytes : Nat) : Nat :=
  u32 (nbytes + 8 - 1) / 8 + 1

namespace Store

/-! ## Growth -/

/-- One pass of the loop of {lit}`ksbrk`: back one page with a fresh frame. -/
def ksbrkPage (addr : Nat) (s : Store) : Except Store Store :=
  let (frame, mem) := s.mem.pfaAlloc
  if frame = 0 then .error { s with mem := mem }
  else .ok ⟨mem.pagingMapPage addr frame 3, s.heap.showFrame mem.phys addr frame⟩

/-- {lit}`ksbrk`: extend the heap by whole pages; {lit}`(void *)-1` on failure. -/
def ksbrk (s : Store) (nbytes : Nat) : Nat × Store :=
  let nbytes := pageAlignUp nbytes
  if u32 (s.heap.heapCurrent + nbytes) > s.heap.heapMax then (0xFFFFFFFF, s)
  else
    let old := s.heap.heapCurrent
    let top := u32 (old + nbytes)
    match tryRange ((top - old + 4095) / 4096) (fun i => ksbrkPage (old + 4096 * i)) s with
    | .error s => (0xFFFFFFFF, s)
    | .ok s => (old, { s with heap := { s.heap with heapCurrent := top } })

/-- {lit}`morecore`: ask for more pages and release them into the free list. -/
def morecore (s : Store) (nunits : Nat) : Nat × Store :=
  let nunits := if nunits < 128 then 128 else nunits
  let nbytes := pageAlignUp (u32 (nunits * 8))
  let (p, s) := s.ksbrk nbytes
  if p = 0xFFFFFFFF then (0, s)
  else
    let heap := (s.heap.setSize p (nbytes / 8)).kfree (Heap.headerAt p 1)
    (heap.freep, { s with heap := heap })

/-! ## Allocation -/

/-- The search loop of {lit}`kmalloc`. -/
def kmallocLoop (nbytes nunits : Nat) : Nat → Nat → Nat → Store → Nat × Store
  | 0, _, _, s => (0, { s with heap := { s.heap with hung := true } })
  | fuel + 1, prevp, p, s =>
      if s.heap.size p ≥ nunits then
        let (q, heap) := s.heap.takeBlock nunits prevp p
        let ptr := Heap.headerAt q 1
        (ptr, { s with heap := { heap with freep := prevp, live := (ptr, nbytes) :: heap.live } })
      else if p = s.heap.freep then
        let (q, s) := s.morecore nunits
        if q = 0 then (0, s) else kmallocLoop nbytes nunits fuel q (s.heap.next q) s
      else kmallocLoop nbytes nunits fuel p (s.heap.next p) s

/-- {lit}`kmalloc`. -/
def kmalloc (L : Layout) (s : Store) (nbytes : Nat) : Nat × Store :=
  if nbytes = 0 then (0, s)
  else
    let nunits := unitsFor nbytes
    let heap := s.heap.prepared L
    kmallocLoop nbytes nunits searchFuel heap.freep (heap.next heap.freep) { s with heap := heap }

/-- {lit}`kfree` on the whole store. -/
def kfree (s : Store) (ptr : Nat) : Store :=
  { s with heap := s.heap.kfree ptr }

end Store

end SoKernel
