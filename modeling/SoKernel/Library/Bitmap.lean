import Mathlib

/-!
# Bitmaps packed into bytes

A bitmap keeps bit {lit}`i` in position {lit}`i % 8` of byte {lit}`i / 8`.  The
two mutators are the usual read-modify-write of one byte; each changes the
member it names and no other.

Main results:

- Theorems {lit}`test_set` and {lit}`test_clear`: the bits of a packed bitmap
  are independent of each other.
- Theorem {lit}`ext_test`: a bitmap is determined by its members.
-/

namespace SoKernel

/-- A packed bitmap. -/
abbrev Bitmap := Nat → UInt8

namespace Bitmap

/-- The byte with one bit set. -/
def mask (bit : Nat) : UInt8 :=
  UInt8.ofNat (1 <<< bit)

/-- Whether bit {lit}`i` is set. -/
def test (bm : Bitmap) (i : Nat) : Bool :=
  (bm (i / 8) &&& mask (i % 8)) != 0

/-- Set bit {lit}`i`. -/
def set (bm : Bitmap) (i : Nat) : Bitmap :=
  Function.update bm (i / 8) (bm (i / 8) ||| mask (i % 8))

/-- Clear bit {lit}`i`. -/
def clear (bm : Bitmap) (i : Nat) : Bitmap :=
  Function.update bm (i / 8) (bm (i / 8) &&& ~~~ mask (i % 8))

/-! ## One byte -/

theorem mask_toNat {bit : Nat} (h : bit < 8) : (mask bit).toNat = 2 ^ bit := by
  have hlt : 2 ^ bit < 2 ^ 8 := Nat.pow_lt_pow_right (by norm_num) h
  simp [mask, Nat.shiftLeft_eq]
  omega

theorem and_mask_ne_zero (b : UInt8) {j : Nat} (hj : j < 8) :
    ((b &&& mask j) != 0) = b.toNat.testBit j := by
  rw [Bool.eq_iff_iff]
  simp only [bne_iff_ne, ne_eq, ← UInt8.toNat_inj, UInt8.toNat_and, mask_toNat hj]
  rw [Nat.and_two_pow]
  cases b.toNat.testBit j <;> simp

theorem testBit_or_mask (b : UInt8) {i j : Nat} (hi : i < 8) :
    (b ||| mask i).toNat.testBit j = (b.toNat.testBit j || decide (i = j)) := by
  simp [mask_toNat hi, Nat.testBit_two_pow]

theorem testBit_not_mask {i j : Nat} (hi : i < 8) (hj : j < 8) :
    (~~~ mask i).toNat.testBit j = !decide (i = j) := by
  have hbit : (~~~ mask i).toNat.testBit j = (~~~ (mask i).toBitVec).getLsbD j := rfl
  have hmask : (mask i).toBitVec.getLsbD j = (mask i).toNat.testBit j := rfl
  rw [hbit, BitVec.getLsbD_not, hmask, mask_toNat hi, Nat.testBit_two_pow]
  simp [hj]

theorem testBit_and_not_mask (b : UInt8) {i j : Nat} (hi : i < 8) (hj : j < 8) :
    (b &&& ~~~ mask i).toNat.testBit j = (b.toNat.testBit j && !decide (i = j)) := by
  rw [UInt8.toNat_and, Nat.testBit_and, testBit_not_mask hi hj]

/-! ## The whole map -/

theorem test_eq_testBit (bm : Bitmap) (i : Nat) :
    bm.test i = (bm (i / 8)).toNat.testBit (i % 8) :=
  and_mask_ne_zero _ (Nat.mod_lt _ (by norm_num))

/-- Every bit of the full map is set. -/
theorem test_full (i : Nat) : Bitmap.test (fun _ => 0xFF) i = true := by
  have hbit : ∀ j : Fin 8, (0xFF : UInt8).toNat.testBit j = true := by decide
  rw [test_eq_testBit]
  exact hbit ⟨i % 8, Nat.mod_lt _ (by norm_num)⟩

/-- Setting a bit adds exactly that member. -/
@[simp]
theorem test_set (bm : Bitmap) (i j : Nat) :
    (bm.set i).test j = (bm.test j || decide (i = j)) := by
  have hi : i % 8 < 8 := Nat.mod_lt _ (by norm_num)
  simp only [test_eq_testBit, set]
  by_cases hbyte : j / 8 = i / 8
  · rw [hbyte, Function.update_self, testBit_or_mask _ hi]
    congr 2
    apply propext
    omega
  · rw [Function.update_of_ne hbyte]
    have hne : i ≠ j := fun h => hbyte (by rw [h])
    simp [hne]

/-- Clearing a bit removes exactly that member. -/
@[simp]
theorem test_clear (bm : Bitmap) (i j : Nat) :
    (bm.clear i).test j = (bm.test j && !decide (i = j)) := by
  have hi : i % 8 < 8 := Nat.mod_lt _ (by norm_num)
  have hj : j % 8 < 8 := Nat.mod_lt _ (by norm_num)
  simp only [test_eq_testBit, clear]
  by_cases hbyte : j / 8 = i / 8
  · rw [hbyte, Function.update_self, testBit_and_not_mask _ hi hj]
    congr 3
    apply propext
    omega
  · rw [Function.update_of_ne hbyte]
    have hne : i ≠ j := fun h => hbyte (by rw [h])
    simp [hne]

/-- A bitmap is determined by its members. -/
theorem ext_test {bm bm' : Bitmap} (h : ∀ i, bm.test i = bm'.test i) : bm = bm' := by
  funext n
  apply UInt8.toNat_inj.1
  apply Nat.eq_of_testBit_eq
  intro j
  by_cases hj : j < 8
  · have hbit := h (8 * n + j)
    have hdiv : (8 * n + j) / 8 = n := by omega
    have hmod : (8 * n + j) % 8 = j := by omega
    rwa [test_eq_testBit, test_eq_testBit, hdiv, hmod] at hbit
  · have hhigh : ∀ b : UInt8, b.toNat.testBit j = false := fun b =>
      Nat.testBit_eq_false_of_lt (lt_of_lt_of_le b.toNat_lt (Nat.pow_le_pow_right (by norm_num)
        (not_lt.1 hj)))
    rw [hhigh, hhigh]

end Bitmap

end SoKernel
