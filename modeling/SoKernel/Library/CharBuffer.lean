import Mathlib.Data.List.Basic
import Mathlib.Logic.Function.Basic

/-!
# Character arrays

A local array of characters that is filled from the front and read as a string.  A write behind
the end of the array is recorded, it does not fail.

Main results:

- Theorem {lit}`put_append`: texts that are written one after another make one text.
- Theorem {lit}`put_overrun`: a text stays within the array when it ends in it.
- Theorem {lit}`string_put`: the string of an array that was filled with a text and its
  terminator.
-/

namespace SoKernel

/-- An array of {lit}`n` characters with the memory behind it. -/
structure CharBuffer (n : Nat) where
  bytes : Nat → UInt8
  overrun : Bool

namespace CharBuffer

variable {n : Nat} (b : CharBuffer n)

/-- An array that was not written yet: its elements have whatever was there. -/
def fresh (junk : Nat → UInt8) : CharBuffer n :=
  ⟨junk, false⟩

/-- Write one element. -/
def write (i : Nat) (c : UInt8) : CharBuffer n :=
  ⟨Function.update b.bytes i c, b.overrun || decide (n ≤ i)⟩

/-- Write a text from element {lit}`i` on. -/
def put (b : CharBuffer n) (i : Nat) : List UInt8 → CharBuffer n
  | [] => b
  | c :: text => (b.write i c).put (i + 1) text

/-- The elements from {lit}`i` on that come before a zero, at most {lit}`fuel` of them. -/
def stringFrom (bytes : Nat → UInt8) : Nat → Nat → List UInt8
  | 0, _ => []
  | fuel + 1, i => if bytes i = 0 then [] else bytes i :: stringFrom bytes fuel (i + 1)

/-- The string in an array. -/
def string : List UInt8 :=
  stringFrom b.bytes n 0

@[simp] theorem write_bytes (i : Nat) (c : UInt8) :
    (b.write i c).bytes = Function.update b.bytes i c :=
  rfl

@[simp] theorem write_overrun (i : Nat) (c : UInt8) :
    (b.write i c).overrun = (b.overrun || decide (n ≤ i)) :=
  rfl

theorem put_append (i : Nat) (text text' : List UInt8) :
    b.put i (text ++ text') = (b.put i text).put (i + text.length) text' := by
  induction text generalizing b i with
  | nil => rfl
  | cons c text ih =>
      rw [List.cons_append, put, put, ih, List.length_cons, Nat.add_right_comm, Nat.add_assoc]

theorem put_singleton (i : Nat) (c : UInt8) : b.put i [c] = b.write i c :=
  rfl

/-- What is before a text stays. -/
theorem put_bytes_of_lt {i j : Nat} (text : List UInt8) (h : j < i) :
    (b.put i text).bytes j = b.bytes j := by
  induction text generalizing b i with
  | nil => rfl
  | cons c text ih =>
      rw [put, ih _ (by omega), write_bytes, Function.update_of_ne (by omega)]

/-- The elements of a text. -/
theorem put_bytes (i : Nat) (text : List UInt8) (j : Nat) (hj : j < text.length) :
    (b.put i text).bytes (i + j) = text[j] := by
  induction text generalizing b i j with
  | nil => cases hj
  | cons c text ih =>
      cases j with
      | zero =>
          rw [put, put_bytes_of_lt _ _ (by omega), Nat.add_zero, write_bytes, Function.update_self]
          rfl
      | succ j =>
          have hnext := ih (b.write i c) (i + 1) j (by simpa using hj)
          rw [Nat.add_assoc, Nat.add_comm 1 j] at hnext
          exact hnext

theorem put_overrun (i : Nat) (text : List UInt8) (h : i + text.length ≤ n) :
    (b.put i text).overrun = b.overrun := by
  induction text generalizing b i with
  | nil => rfl
  | cons c text ih =>
      rw [List.length_cons] at h
      rw [put, ih _ _ (by omega), write_overrun, decide_eq_false (by omega), Bool.or_false]

/-- The string of bytes that begin with a text and its terminator. -/
theorem stringFrom_eq {bytes : Nat → UInt8} {text : List UInt8} {fuel i : Nat}
    (hbytes : ∀ j (hj : j < text.length), bytes (i + j) = text[j])
    (hend : bytes (i + text.length) = 0) (hz : 0 ∉ text) (hfuel : text.length < fuel) :
    stringFrom bytes fuel i = text := by
  induction text generalizing fuel i with
  | nil =>
      cases fuel with
      | zero => cases hfuel
      | succ fuel => exact if_pos hend
  | cons c text ih =>
      cases fuel with
      | zero => cases hfuel
      | succ fuel =>
          have hfirst : bytes i = c := hbytes 0 (by simp)
          have hc : c ≠ 0 := fun hc => hz (by simp [hc])
          rw [stringFrom, hfirst, if_neg hc, ih]
          · intro j hj
            have hnext := hbytes (j + 1) (by simpa using hj)
            rw [List.getElem_cons_succ] at hnext
            rw [← hnext]
            congr 1
            omega
          · rw [← hend, List.length_cons]
            congr 1
            omega
          · exact fun hmem => hz (List.mem_cons_of_mem _ hmem)
          · simpa using hfuel

/-- A text with its terminator is the string of the array. -/
theorem string_put {text : List UInt8} (hz : 0 ∉ text) (hlength : text.length < n) :
    (b.put 0 (text ++ [0])).string = text := by
  have hbytes := b.put_bytes 0 (text ++ [0])
  refine stringFrom_eq (fun j hj => ?_) ?_ hz hlength
  · rw [hbytes j (by rw [List.length_append]; omega), List.getElem_append_left hj]
  · rw [hbytes text.length (by simp), List.getElem_append_right (Nat.le_refl _)]
    simp

end CharBuffer

end SoKernel
