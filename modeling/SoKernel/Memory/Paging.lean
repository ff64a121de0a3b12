import SoKernel.Library.ByteMemory
import SoKernel.Memory.FrameAllocator

/-!
# Paging and the temporary window

This module models {lit}`memory/paging.c` together with the state it works on:
physical memory as bytes, the frame allocator, the static page directory and the
static kernel page table, and the loaded page directory.  Entry 1023 of the
kernel page table is the temporary window through which the kernel reaches any
other frame.

A pointer returned by {lit}`paging_temp_map` carries the page it was obtained
for.  An access goes to whatever the window maps at that moment; the history
field {lit}`strayAccess` records an access made while the window did not map the
pointer's page, and also a page that {lit}`paging_map_page` put in the place of the
window.  The field {lit}`destroyedLoaded` records a release of the directory that is
loaded in {lit}`cr3`.

Main results:

- Theorems {lit}`peekWord_eq`, {lit}`pokeWord_eq`, {lit}`zeroPage_eq`,
  {lit}`loadBytes_eq` and {lit}`storeBytes_eq`: each map-access-unmap sequence
  acts on the frame it names, leaves the window closed and is never stray.
-/

namespace SoKernel

/-! ## Entries of directories and tables -/

/-- {lit}`entry & PDE_PRESENT`. -/
def present (e : Nat) : Bool :=
  (e &&& 1) != 0

/-- {lit}`entry & 0xFFFFF000`: the address of the frame an entry names. -/
def frameBits (e : Nat) : Nat :=
  e &&& 0xFFFFF000

/-- {lit}`entry & 0xFFF`: the flags of an entry. -/
def flagBits (e : Nat) : Nat :=
  e &&& 0xFFF

/-- The present flag is the lowest bit. -/
theorem present_eq (e : Nat) : present e = decide (e % 2 = 1) := by
  simp only [present, Nat.and_one_is_mod]
  rcases Nat.mod_two_eq_zero_or_one e with h | h <;> simp [h]

/-- The mask of an entry rounds it down to a page. -/
theorem frameBits_eq {e : Nat} (he : e < 2 ^ 32) : frameBits e = 4096 * (e / 4096) := by
  apply Nat.eq_of_testBit_eq
  intro i
  have hmul : (4096 * (e / 4096)).testBit i = (decide (12 ≤ i) && e.testBit i) := by
    rw [show (4096 : Nat) = 2 ^ 12 from rfl, Nat.testBit_two_pow_mul, Nat.testBit_div_two_pow]
    by_cases hi : 12 ≤ i
    · simp [hi, Nat.sub_add_cancel hi]
    · simp [hi]
  rw [hmul, frameBits, Nat.testBit_and]
  by_cases hi : i < 32
  · have hmask : ∀ j : Fin 32, (0xFFFFF000 : Nat).testBit j = decide (12 ≤ (j : Nat)) := by
      decide
    rw [hmask ⟨i, hi⟩, Bool.and_comm]
  · have hbit : e.testBit i = false :=
      Nat.testBit_lt_two_pow (he.trans_le (Nat.pow_le_pow_right (by norm_num) (by omega)))
    simp [hbit]

/-- The address of a frame passes the mask unchanged. -/
@[simp]
theorem frameBits_mul {n : Nat} (hn : n < 2 ^ 20) : frameBits (4096 * n) = 4096 * n := by
  rw [frameBits_eq (by omega)]
  omega

/-- The flags of an entry are its low twelve bits. -/
theorem flagBits_eq (e : Nat) : flagBits e = e % 4096 :=
  Nat.and_two_pow_sub_one_eq_mod e 12

/-- Or-ing flags into a page-aligned address. -/
theorem frame_or_flags (n : Nat) {flags : Nat} (h : flags < 4096) :
    4096 * n ||| flags = 4096 * n + flags :=
  (Nat.two_pow_add_eq_or_of_lt (i := 12) h n).symm

/-! ## The linked image -/

/-- What the linker and the loader fix: the end of the kernel image and the places
of the static objects that the code takes the address of.  The image starts at
1 MB and leaves room below the temporary window. -/
structure Layout where
  kernelPhysicalEnd : Nat
  base : Nat
  kernelPageTablePhys : Nat
  pageDirectoryPhys : Nat
  kernelStackTop : Nat
  image_lo : 0x100000 < kernelPhysicalEnd
  image_hi : kernelPhysicalEnd ≤ 0x3FE000
  base_lo : 0xC0100000 ≤ base
  base_hi : base + 8 ≤ kernelPhysicalEnd + 0xC0000000
  table_aligned : kernelPageTablePhys % 4096 = 0
  table_lo : 0x100000 ≤ kernelPageTablePhys
  table_hi : kernelPageTablePhys + 4096 ≤ kernelPhysicalEnd
  directory_aligned : pageDirectoryPhys % 4096 = 0
  directory_lo : 0x100000 ≤ pageDirectoryPhys
  directory_hi : pageDirectoryPhys + 4096 ≤ kernelPhysicalEnd

/-- The first heap address: the end of the image in the higher half, page aligned. -/
def Layout.heapStart (L : Layout) : Nat :=
  pageAlignUp (L.kernelPhysicalEnd + 0xC0000000)

/-- The heap starts at a page behind the kernel image and below the window. -/
theorem Layout.heapStart_bounds (L : Layout) :
    L.kernelPhysicalEnd + 0xC0000000 ≤ L.heapStart ∧ L.heapStart ≤ 0xC03FE000 ∧
      L.heapStart % 4096 = 0 := by
  have := L.image_lo
  have := L.image_hi
  simp only [heapStart, pageAlignUp, u32]
  omega

/-! ## Machine memory -/

/-- What the memory side of the kernel works on. -/
structure Memory where
  pfa : Pfa
  phys : ByteMemory
  kernelPageTable : Nat → Nat
  pageDirectory : Nat → Nat
  cr3 : Nat
  strayAccess : Bool
  destroyedLoaded : Bool

/-- A pointer into the temporary window, with the page it was obtained for. -/
structure WindowPtr where
  page : Nat

namespace Memory

/-- {lit}`paging_temp_map`: point the window at a frame. -/
def pagingTempMap (m : Memory) (paddr : Nat) : WindowPtr × Memory :=
  (⟨frameBits paddr⟩,
    { m with kernelPageTable := Function.update m.kernelPageTable 1023 (frameBits paddr ||| 3) })

/-- {lit}`paging_temp_unmap`: empty the window. -/
def pagingTempUnmap (m : Memory) : Memory :=
  { m with kernelPageTable := Function.update m.kernelPageTable 1023 0 }

/-- The physical address behind the window. -/
def windowBase (m : Memory) : Nat :=
  frameBits (m.kernelPageTable 1023)

/-- Record whether an access through a pointer reaches the pointer's page. -/
def touch (m : Memory) (p : WindowPtr) : Memory :=
  { m with strayAccess := m.strayAccess || decide (m.kernelPageTable 1023 ≠ p.page ||| 3) }

/-- Load word {lit}`i` through a window pointer. -/
def readWord (m : Memory) (p : WindowPtr) (i : Nat) : Nat × Memory :=
  (m.phys.read32 (m.windowBase + 4 * i), m.touch p)

/-- Store word {lit}`i` through a window pointer. -/
def writeWord (m : Memory) (p : WindowPtr) (i v : Nat) : Memory :=
  { m.touch p with phys := m.phys.write32 (m.windowBase + 4 * i) v }

/-- Load byte {lit}`i` through a window pointer. -/
def readByte (m : Memory) (p : WindowPtr) (i : Nat) : UInt8 × Memory :=
  (m.phys (m.windowBase + i), m.touch p)

/-- Store byte {lit}`i` through a window pointer. -/
def writeByte (m : Memory) (p : WindowPtr) (i : Nat) (b : UInt8) : Memory :=
  { m.touch p with phys := Function.update m.phys (m.windowBase + i) b }

/-- {lit}`pfa_alloc` on the whole memory. -/
def pfaAlloc (m : Memory) : Nat × Memory :=
  (m.pfa.pfaAlloc.1, { m with pfa := m.pfa.pfaAlloc.2 })

/-- {lit}`pfa_free` on the whole memory. -/
def pfaFree (m : Memory) (addr : Nat) : Memory :=
  { m with pfa := m.pfa.pfaFree addr }

/-- {lit}`update_cr3`. -/
def updateCr3 (m : Memory) (pdt : Nat) : Memory :=
  { m with cr3 := pdt }

/-! ## Recurring sequences of the source

The source opens the window, makes one kind of access and closes it again in
many places; each such sequence is one definition here. -/

/-- Map a frame, read one word of it, unmap. -/
def peekWord (m : Memory) (paddr i : Nat) : Nat × Memory :=
  let (p, m) := m.pagingTempMap paddr
  let (w, m) := m.readWord p i
  (w, m.pagingTempUnmap)

/-- Map a frame, write one word of it, unmap. -/
def pokeWord (m : Memory) (paddr i v : Nat) : Memory :=
  let (p, m) := m.pagingTempMap paddr
  (m.writeWord p i v).pagingTempUnmap

/-- Map a frame, clear its 4096 bytes one by one, unmap. -/
def zeroPage (m : Memory) (paddr : Nat) : Memory :=
  let (p, m) := m.pagingTempMap paddr
  (forRange 4096 (fun i m => m.writeByte p i 0) m).pagingTempUnmap

/-- Map a frame, clear its 1024 words one by one, unmap. -/
def zeroTable (m : Memory) (paddr : Nat) : Memory :=
  let (p, m) := m.pagingTempMap paddr
  (forRange 1024 (fun i m => m.writeWord p i 0) m).pagingTempUnmap

/-- Map a frame, copy {lit}`n` bytes of it from {lit}`off` on into a buffer, unmap. -/
def loadBytes (m : Memory) (paddr off n : Nat) : (Nat → UInt8) × Memory :=
  let (p, m) := m.pagingTempMap paddr
  let (buf, m) := forRange n (fun i (buf, m) =>
    let (b, m) := m.readByte p (off + i)
    (Function.update buf i b, m)) ((fun _ => 0 : Nat → UInt8), m)
  (buf, m.pagingTempUnmap)

/-- Map a frame, copy {lit}`n` bytes of a buffer into it from {lit}`off` on, unmap. -/
def storeBytes (m : Memory) (paddr off n : Nat) (buf : Nat → UInt8) : Memory :=
  let (p, m) := m.pagingTempMap paddr
  (forRange n (fun i m => m.writeByte p (off + i) (buf i)) m).pagingTempUnmap

/-! ## The remaining source functions -/

/-- {lit}`paging_map_page`.  The stores to {lit}`kernel_page_table` and {lit}`page_directory`, which
are in the kernel image, reach these tables as long as the pages of the image are mapped to their
own frames. -/
def pagingMapPage (m : Memory) (vaddr paddr flags : Nat) : Memory :=
  let pdIndex := vaddr / 2 ^ 22
  let ptIndex := vaddr / 2 ^ 12 % 1024
  if pdIndex = 768 then
    { m with
      kernelPageTable := Function.update m.kernelPageTable ptIndex (frameBits paddr ||| flags)
      strayAccess := m.strayAccess || decide (ptIndex = 1023) }
  else if present (m.pageDirectory pdIndex) = false then
    let (ptFrame, m) := m.pfaAlloc
    if ptFrame = 0 then m
    else
      let (p, m) := m.pagingTempMap ptFrame
      let m := forRange 1024 (fun i m => m.writeWord p i 0) m
      let m := (m.writeWord p ptIndex (frameBits paddr ||| flags)).pagingTempUnmap
      { m with pageDirectory := Function.update m.pageDirectory pdIndex (ptFrame ||| 3) }
  else
    m.pokeWord (frameBits (m.pageDirectory pdIndex)) ptIndex (frameBits paddr ||| flags)

/-- {lit}`paging_init`, given the end of the kernel image and the physical
address of the kernel page table. -/
def pagingInit (m : Memory) (kernelPhysicalEnd tablePhys : Nat) : Memory :=
  let mappedFrames := (kernelPhysicalEnd + 4096 - 1) / 4096
  { m with
    kernelPageTable := fun i =>
      if i < mappedFrames ∧ i < 1023 then (i * 4096) ||| 3
      else if i ≤ 1023 then 0 else m.kernelPageTable i
    pageDirectory := Function.update m.pageDirectory 768 (tablePhys ||| 3) }

/-! ## Specifications of the sequences -/

/-- The temporary window maps nothing. -/
def WindowClosed (m : Memory) : Prop :=
  m.kernelPageTable 1023 = 0

/-- Opening the window and closing it again leaves the table as it was. -/
theorem WindowClosed.reset {m : Memory} (h : m.WindowClosed) (v : Nat) :
    Function.update (Function.update m.kernelPageTable 1023 v) 1023 0 = m.kernelPageTable := by
  rw [Function.update_idem]
  exact Function.update_eq_self_iff.2 h.symm

/-- The memory with the window on frame {lit}`n`. -/
def opened (m : Memory) (n : Nat) : Memory :=
  { m with kernelPageTable := Function.update m.kernelPageTable 1023 (4096 * n ||| 3) }

/-- {lit}`paging_temp_map` opens the window at the frame that it is asked for. -/
theorem pagingTempMap_eq (m : Memory) {n : Nat} (hn : n < 2 ^ 20) :
    m.pagingTempMap (4096 * n) = (⟨4096 * n⟩, m.opened n) := by
  simp only [pagingTempMap, frameBits_mul hn, opened]

/-- An open window shows its frame. -/
theorem opened_windowBase (m : Memory) {n : Nat} (hn : n < 2 ^ 20) :
    (m.opened n).windowBase = 4096 * n := by
  simp only [windowBase, opened, Function.update_self]
  rw [frame_or_flags n (by norm_num), frameBits_eq (by omega)]
  omega

/-- An access through the pointer of the last call does not stray. -/
@[simp]
theorem opened_touch (m : Memory) (n : Nat) : (m.opened n).touch ⟨4096 * n⟩ = m.opened n := by
  simp [touch, opened]

/-- {lit}`paging_temp_unmap` closes what {lit}`paging_temp_map` has opened. -/
theorem opened_pagingTempUnmap {m : Memory} (h : m.WindowClosed) (n : Nat) :
    (m.opened n).pagingTempUnmap = m := by
  simp only [pagingTempUnmap, opened, h.reset]

/-- A store of a word through the window goes to the frame. -/
theorem opened_writeWord (m : Memory) {n : Nat} (hn : n < 2 ^ 20) (i v : Nat) :
    (m.opened n).writeWord ⟨4096 * n⟩ i v =
      ({ m with phys := m.phys.setWord n i v } : Memory).opened n := by
  simp only [writeWord, opened_touch, opened_windowBase m hn]
  rfl

/-- A store of a byte through the window goes to the frame. -/
theorem opened_writeByte (m : Memory) {n : Nat} (hn : n < 2 ^ 20) (i : Nat) (b : UInt8) :
    (m.opened n).writeByte ⟨4096 * n⟩ i b =
      ({ m with phys := Function.update m.phys (4096 * n + i) b } : Memory).opened n := by
  simp only [writeByte, opened_touch, opened_windowBase m hn]
  rfl

/-- Reading a word of a frame leaves memory as it was. -/
theorem peekWord_eq {m : Memory} (h : m.WindowClosed) {n : Nat} (hn : n < 2 ^ 20) (i : Nat) :
    m.peekWord (4096 * n) i = (m.phys.word n i, m) := by
  simp only [peekWord, pagingTempMap_eq m hn, readWord, opened_touch, opened_windowBase m hn,
    opened_pagingTempUnmap h]
  rfl

/-- Writing a word of a frame writes this word and nothing else. -/
theorem pokeWord_eq {m : Memory} (h : m.WindowClosed) {n : Nat} (hn : n < 2 ^ 20) (i v : Nat) :
    m.pokeWord (4096 * n) i v = { m with phys := m.phys.setWord n i v } := by
  simp only [pokeWord, pagingTempMap_eq m hn, opened_writeWord m hn]
  exact opened_pagingTempUnmap (m := { m with phys := m.phys.setWord n i v }) h n

/-- Clearing bytes through the window. -/
theorem opened_zeroBytes (m : Memory) {n : Nat} (hn : n < 2 ^ 20) (k : Nat) :
    forRange k (fun i m => m.writeByte ⟨4096 * n⟩ i 0) (m.opened n) =
      ({ m with phys := m.phys.fill (4096 * n) k 0 } : Memory).opened n := by
  induction k with
  | zero => simp
  | succ k ih =>
      rw [forRange_succ, ih, opened_writeByte _ hn]
      simp only [ByteMemory.update_fill]

/-- Clearing words through the window. -/
theorem opened_zeroWords (m : Memory) {n : Nat} (hn : n < 2 ^ 20) (k : Nat) :
    forRange k (fun i m => m.writeWord ⟨4096 * n⟩ i 0) (m.opened n) =
      ({ m with phys := m.phys.fill (4096 * n) (4 * k) 0 } : Memory).opened n := by
  have hstep : ∀ (b : ByteMemory) (k : Nat),
      (b.fill (4096 * n) (4 * k) 0).setWord n k 0 = b.fill (4096 * n) (4 * (k + 1)) 0 := by
    intro b k
    funext x
    simp only [ByteMemory.setWord, ByteMemory.write32, ByteMemory.fill]
    norm_num
    split_ifs <;> first | rfl | omega
  induction k with
  | zero => simp
  | succ k ih =>
      rw [forRange_succ, ih, opened_writeWord _ hn]
      simp only [hstep]

/-- Clearing a page clears one frame. -/
theorem zeroPage_eq {m : Memory} (h : m.WindowClosed) {n : Nat} (hn : n < 2 ^ 20) :
    m.zeroPage (4096 * n) = { m with phys := m.phys.fill (4096 * n) 4096 0 } := by
  simp only [zeroPage, pagingTempMap_eq m hn, opened_zeroBytes m hn]
  exact opened_pagingTempUnmap (m := { m with phys := m.phys.fill (4096 * n) 4096 0 }) h n

/-- Clearing a table clears one frame. -/
theorem zeroTable_eq {m : Memory} (h : m.WindowClosed) {n : Nat} (hn : n < 2 ^ 20) :
    m.zeroTable (4096 * n) = { m with phys := m.phys.fill (4096 * n) 4096 0 } := by
  simp only [zeroTable, pagingTempMap_eq m hn, opened_zeroWords m hn]
  exact opened_pagingTempUnmap (m := { m with phys := m.phys.fill (4096 * n) 4096 0 }) h n

/-- Storing bytes in a frame writes these bytes and nothing else. -/
theorem storeBytes_eq {m : Memory} (h : m.WindowClosed) {n : Nat} (hn : n < 2 ^ 20)
    (off len : Nat) (buf : Nat → UInt8) :
    m.storeBytes (4096 * n) off len buf =
      { m with phys := m.phys.store (4096 * n + off) len buf } := by
  have hloop : ∀ k, forRange k (fun i m => m.writeByte ⟨4096 * n⟩ (off + i) (buf i)) (m.opened n) =
      ({ m with phys := m.phys.store (4096 * n + off) k buf } : Memory).opened n := by
    intro k
    induction k with
    | zero => simp
    | succ k ih =>
        rw [forRange_succ, ih, opened_writeByte _ hn]
        simp only [← Nat.add_assoc, ByteMemory.update_store]
  simp only [storeBytes, pagingTempMap_eq m hn, hloop]
  exact opened_pagingTempUnmap (m := { m with phys := m.phys.store (4096 * n + off) len buf }) h n

/-- Loading bytes of a frame leaves memory as it was. -/
theorem loadBytes_eq {m : Memory} (h : m.WindowClosed) {n : Nat} (hn : n < 2 ^ 20)
    (off len : Nat) :
    m.loadBytes (4096 * n) off len =
      (fun i => if i < len then m.phys (4096 * n + off + i) else 0, m) := by
  have hloop : ∀ k, forRange k (fun i (s : (Nat → UInt8) × Memory) =>
        (Function.update s.1 i (s.2.readByte ⟨4096 * n⟩ (off + i)).1,
          (s.2.readByte ⟨4096 * n⟩ (off + i)).2)) ((fun _ => 0), m.opened n) =
      (fun i => if i < k then m.phys (4096 * n + off + i) else 0, m.opened n) := by
    intro k
    induction k with
    | zero => simp
    | succ k ih =>
        rw [forRange_succ, ih]
        simp only [readByte, opened_touch, opened_windowBase m hn, Prod.mk.injEq, and_true]
        funext i
        by_cases hi : i = k
        · subst hi
          simp [opened, Nat.add_assoc]
        · have hlt : i < k + 1 ↔ i < k := by omega
          simp [Function.update_of_ne hi, hlt]
  simp only [loadBytes, pagingTempMap_eq m hn, hloop, opened_pagingTempUnmap h]

end Memory

end SoKernel
