import Mathlib

/-!
# Byte-addressed memories

A memory is a total map from addresses to bytes.  This module fixes the
little-endian 32-bit view of such a memory, page-shaped block operations, and
the notion of two memories agreeing on one block.  Nothing here refers to a
particular machine.

Main results:

- Theorems {lit}`read32_write32_self` and {lit}`read32_write32_apart`: a word
  store is seen at its own address and at no disjoint one.
- Theorem {lit}`word_setWord`: in a table of words stored in one block, a store
  updates exactly one entry.
- Theorem {lit}`BlockEq.word`: agreement on a block carries over to its words.
-/

namespace SoKernel

/-- A byte-addressed memory. -/
abbrev ByteMemory := Nat → UInt8

namespace ByteMemory

/-! ## Little-endian words -/

/-- The 32-bit little-endian word stored at an address. -/
def read32 (m : ByteMemory) (a : Nat) : Nat :=
  (m a).toNat + 256 * (m (a + 1)).toNat + 65536 * (m (a + 2)).toNat +
    16777216 * (m (a + 3)).toNat

/-- Store the low 32 bits of a number at an address, least significant byte first. -/
def write32 (m : ByteMemory) (a v : Nat) : ByteMemory := fun x =>
  if x = a then UInt8.ofNat v
  else if x = a + 1 then UInt8.ofNat (v / 256)
  else if x = a + 2 then UInt8.ofNat (v / 65536)
  else if x = a + 3 then UInt8.ofNat (v / 16777216)
  else m x

/-- A stored word is a 32-bit number. -/
theorem read32_lt (m : ByteMemory) (a : Nat) : m.read32 a < 2 ^ 32 := by
  have h0 := (m a).toNat_lt
  have h1 := (m (a + 1)).toNat_lt
  have h2 := (m (a + 2)).toNat_lt
  have h3 := (m (a + 3)).toNat_lt
  simp only [read32]
  omega

/-- A word store leaves every byte outside its four cells alone. -/
theorem write32_apply_of_ne {m : ByteMemory} {a v x : Nat} (h : x < a ∨ a + 4 ≤ x) :
    m.write32 a v x = m x := by
  have h0 : x ≠ a := by omega
  have h1 : x ≠ a + 1 := by omega
  have h2 : x ≠ a + 2 := by omega
  have h3 : x ≠ a + 3 := by omega
  simp [write32, h0, h1, h2, h3]

/-- Reading back a stored 32-bit word. -/
@[simp]
theorem read32_write32_self (m : ByteMemory) {a v : Nat} (hv : v < 2 ^ 32) :
    (m.write32 a v).read32 a = v := by
  simp [read32, write32]
  omega

/-- A word store is invisible to a disjoint word. -/
theorem read32_write32_apart (m : ByteMemory) {a b v : Nat}
    (h : b + 4 ≤ a ∨ a + 4 ≤ b) : (m.write32 a v).read32 b = m.read32 b := by
  simp only [read32]
  rw [write32_apply_of_ne (by omega), write32_apply_of_ne (by omega),
    write32_apply_of_ne (by omega), write32_apply_of_ne (by omega)]

/-- Words agree when their four bytes agree. -/
theorem read32_congr {m m' : ByteMemory} {a : Nat}
    (h : ∀ x, a ≤ x → x < a + 4 → m x = m' x) : m.read32 a = m'.read32 a := by
  simp only [read32]
  rw [h a (by omega) (by omega), h (a + 1) (by omega) (by omega),
    h (a + 2) (by omega) (by omega), h (a + 3) (by omega) (by omega)]

/-! ## Ranges of bytes -/

/-- Set every byte of a range to one value. -/
def fill (m : ByteMemory) (a n : Nat) (b : UInt8) : ByteMemory := fun x =>
  if a ≤ x ∧ x < a + n then b else m x

/-- Overwrite a range with the bytes of a buffer. -/
def store (m : ByteMemory) (a n : Nat) (buf : Nat → UInt8) : ByteMemory := fun x =>
  if a ≤ x ∧ x < a + n then buf (x - a) else m x

@[simp]
theorem fill_zero (m : ByteMemory) (a : Nat) (b : UInt8) : m.fill a 0 b = m := by
  funext x
  simp only [fill]
  rw [if_neg (by omega)]

@[simp]
theorem store_zero (m : ByteMemory) (a : Nat) (buf : Nat → UInt8) : m.store a 0 buf = m := by
  funext x
  simp only [store]
  rw [if_neg (by omega)]

/-- Filling one more byte at the end of a range. -/
theorem update_fill (m : ByteMemory) (a n : Nat) (b : UInt8) :
    Function.update (m.fill a n b) (a + n) b = m.fill a (n + 1) b := by
  funext x
  by_cases hx : x = a + n
  · subst hx
    simp [fill]
  · simp only [Function.update_of_ne hx, fill]
    congr 1
    apply propext
    omega

/-- Storing one more byte at the end of a range. -/
theorem update_store (m : ByteMemory) (a n : Nat) (buf : Nat → UInt8) :
    Function.update (m.store a n buf) (a + n) (buf n) = m.store a (n + 1) buf := by
  funext x
  by_cases hx : x = a + n
  · subst hx
    simp [store]
  · simp only [Function.update_of_ne hx, store]
    congr 1
    apply propext
    omega

/-- Two adjacent stores from one buffer. -/
theorem store_append (m : ByteMemory) (a n k : Nat) {buf buf' : Nat → UInt8}
    (h : ∀ i, i < k → buf' i = buf (n + i)) :
    (m.store a n buf).store (a + n) k buf' = m.store a (n + k) buf := by
  funext x
  simp only [store]
  by_cases hk : a + n ≤ x ∧ x < a + n + k
  · rw [if_pos hk, if_pos (by omega), h _ (by omega)]
    congr 1
    omega
  · rw [if_neg hk]
    congr 1
    apply propext
    omega

/-- Words of a zeroed range are zero. -/
theorem read32_fill_zero (m : ByteMemory) {a n b : Nat} (hlo : a ≤ b) (hhi : b + 4 ≤ a + n) :
    (m.fill a n 0).read32 b = 0 := by
  have hz : ∀ x, b ≤ x → x < b + 4 → m.fill a n 0 x = 0 := by
    intro x hx hx'
    simp only [fill]
    rw [if_pos (by omega)]
  simp only [read32]
  rw [hz b (by omega) (by omega), hz (b + 1) (by omega) (by omega),
    hz (b + 2) (by omega) (by omega), hz (b + 3) (by omega) (by omega)]
  rfl

/-! ## Blocks of 4096 bytes -/

/-- Two memories agree on the block with number {lit}`n`. -/
def BlockEq (m m' : ByteMemory) (n : Nat) : Prop :=
  ∀ a, a / 4096 = n → m a = m' a

theorem BlockEq.refl (m : ByteMemory) (n : Nat) : BlockEq m m n :=
  fun _ _ => rfl

theorem BlockEq.symm {m m' : ByteMemory} {n : Nat} (h : BlockEq m m' n) : BlockEq m' m n :=
  fun a ha => (h a ha).symm

theorem BlockEq.trans {m m' m'' : ByteMemory} {n : Nat} (h : BlockEq m m' n)
    (h' : BlockEq m' m'' n) : BlockEq m m'' n :=
  fun a ha => (h a ha).trans (h' a ha)

/-- Entry {lit}`i` of the table of 1024 words stored in block {lit}`n`. -/
def word (m : ByteMemory) (n i : Nat) : Nat :=
  m.read32 (4096 * n + 4 * i)

/-- Replace entry {lit}`i` of the table stored in block {lit}`n`. -/
def setWord (m : ByteMemory) (n i v : Nat) : ByteMemory :=
  m.write32 (4096 * n + 4 * i) v

/-- The first byte of an entry is its low one. -/
theorem toNat_first_byte (m : ByteMemory) (n i : Nat) :
    (m (4096 * n + 4 * i)).toNat = m.word n i % 256 := by
  have hlt := (m (4096 * n + 4 * i)).toNat_lt
  simp only [word, read32]
  omega

theorem word_lt (m : ByteMemory) (n i : Nat) : m.word n i < 2 ^ 32 :=
  read32_lt m _

/-- Agreement on a block carries over to the words stored in it. -/
theorem BlockEq.word {m m' : ByteMemory} {n i : Nat} (h : BlockEq m m' n) (hi : i < 1024) :
    m.word n i = m'.word n i := by
  apply read32_congr
  intro x hx hx'
  exact h x (by omega)

/-- A table store replaces its own entry and no other entry of any table. -/
theorem word_setWord (m : ByteMemory) {n i v : Nat} (hv : v < 2 ^ 32) {n' j : Nat} (hi : i < 1024)
    (hj : j < 1024) :
    (m.setWord n i v).word n' j = if n' = n ∧ j = i then v else m.word n' j := by
  by_cases h : n' = n ∧ j = i
  · obtain ⟨rfl, rfl⟩ := h
    rw [if_pos ⟨rfl, rfl⟩]
    exact read32_write32_self m hv
  · rw [if_neg h]
    apply read32_write32_apart
    omega

/-- A table store leaves every other block alone. -/
theorem blockEq_setWord (m : ByteMemory) {n i v n' : Nat} (hi : i < 1024) (hn : n' ≠ n) :
    BlockEq (m.setWord n i v) m n' := by
  intro a ha
  apply write32_apply_of_ne
  omega

/-- Filling one block leaves every other block alone. -/
theorem blockEq_fill (m : ByteMemory) {n n' : Nat} {b : UInt8} (hn : n' ≠ n) :
    BlockEq (m.fill (4096 * n) 4096 b) m n' := by
  intro a ha
  simp only [fill]
  rw [if_neg (by omega)]

/-- A store within one block leaves every other block alone. -/
theorem blockEq_store (m : ByteMemory) {n n' k : Nat} {buf : Nat → UInt8} (hk : k ≤ 4096)
    (hn : n' ≠ n) : BlockEq (m.store (4096 * n) k buf) m n' := by
  intro a ha
  simp only [store]
  rw [if_neg (by omega)]

/-- Every word of a zeroed block is zero. -/
theorem word_fill_zero (m : ByteMemory) {n i : Nat} (hi : i < 1024) :
    (m.fill (4096 * n) 4096 0).word n i = 0 :=
  read32_fill_zero m (by omega) (by omega)

end ByteMemory

end SoKernel
