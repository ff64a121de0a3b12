import SoKernel.Library.Loops

/-!
# Bounded ring buffers

A queue of bounded capacity kept in an array with a head, a tail and a length.
The structure carries its own well-formedness, so every buffer that can be built
represents the list of its elements in queue order.

Main results:

- Theorem {lit}`toList_enqueue`: an element enters at the end of the queue.
- Theorem {lit}`toList_dequeue`: the first element leaves.
- Theorem {lit}`toList_removeAt`: an inner element leaves by shifting the later
  ones forward.
-/

namespace SoKernel

/-- A queue in an array of {lit}`cap` cells. -/
structure RingBuffer (α : Type) (cap : Nat) where
  slots : Nat → α
  head : Nat
  tail : Nat
  len : Nat
  head_lt : head < cap
  tail_eq : tail = (head + len) % cap
  len_le : len ≤ cap

namespace RingBuffer

variable {α : Type} {cap : Nat}

/-- The elements in queue order. -/
def toList (b : RingBuffer α cap) : List α :=
  (List.range b.len).map fun i => b.slots ((b.head + i) % cap)

@[simp]
theorem length_toList (b : RingBuffer α cap) : b.toList.length = b.len := by
  simp [toList]

theorem getElem?_toList (b : RingBuffer α cap) {i : Nat} (hi : i < b.len) :
    b.toList[i]? = some (b.slots ((b.head + i) % cap)) := by
  simp [toList, hi]

/-- Cells at different distances from the head are different cells. -/
theorem cell_inj {h p q : Nat} (hp : p < cap) (hq : q < cap)
    (heq : (h + p) % cap = (h + q) % cap) : p = q := by
  have hmod : p ≡ q [MOD cap] := Nat.ModEq.add_left_cancel' h heq
  exact Nat.ModEq.eq_of_lt_of_lt hmod hp hq

/-! ## Operations -/

/-- The empty queue. -/
def empty (cap : Nat) (hcap : 0 < cap) (a : α) : RingBuffer α cap where
  slots := fun _ => a
  head := 0
  tail := 0
  len := 0
  head_lt := hcap
  tail_eq := by simp
  len_le := Nat.zero_le _

/-- Store at the tail and advance it. -/
def enqueue (b : RingBuffer α cap) (a : α) (h : b.len < cap) : RingBuffer α cap where
  slots := Function.update b.slots b.tail a
  head := b.head
  tail := (b.tail + 1) % cap
  len := b.len + 1
  head_lt := b.head_lt
  tail_eq := by
    rw [b.tail_eq, Nat.mod_add_mod, Nat.add_assoc]
  len_le := h

/-- The element at the head. -/
def front (b : RingBuffer α cap) : α :=
  b.slots b.head

/-- Advance the head. -/
def dequeue (b : RingBuffer α cap) (h : 0 < b.len) : RingBuffer α cap where
  slots := b.slots
  head := (b.head + 1) % cap
  tail := b.tail
  len := b.len - 1
  head_lt := Nat.mod_lt _ (by have := b.head_lt; omega)
  tail_eq := by
    rw [b.tail_eq, Nat.mod_add_mod]
    congr 1
    omega
  len_le := (Nat.sub_le _ _).trans b.len_le

/-- The element at distance {lit}`i` from the head. -/
def get (b : RingBuffer α cap) (i : Nat) : α :=
  b.slots ((b.head + i) % cap)

/-- Move every element behind distance {lit}`i` one cell forward. -/
def shift (b : RingBuffer α cap) (i : Nat) : Nat → α :=
  forRange (b.len - 1 - i) (fun k slots =>
    Function.update slots ((b.head + (i + k)) % cap) (slots ((b.head + (i + k) + 1) % cap))) b.slots

/-- Remove the element at distance {lit}`i` from the head. -/
def removeAt (b : RingBuffer α cap) (i : Nat) (h : 0 < b.len) : RingBuffer α cap where
  slots := b.shift i
  head := b.head
  tail := if b.tail = 0 then cap - 1 else b.tail - 1
  len := b.len - 1
  head_lt := b.head_lt
  tail_eq := by
    have hhead := b.head_lt
    have hlen := b.len_le
    rw [b.tail_eq]
    rcases Nat.lt_or_ge (b.head + b.len) cap with hlt | hge
    · rw [Nat.mod_eq_of_lt hlt, Nat.mod_eq_of_lt (by omega), if_neg (by omega)]
      omega
    · rw [Nat.mod_eq_sub_mod hge, Nat.mod_eq_of_lt (show b.head + b.len - cap < cap by omega)]
      split
      · rw [Nat.mod_eq_of_lt (by omega)]
        omega
      · rw [Nat.mod_eq_sub_mod (by omega), Nat.mod_eq_of_lt (by omega)]
        omega
  len_le := (Nat.sub_le _ _).trans b.len_le

/-! ## The list a buffer represents -/

@[simp]
theorem toList_empty (hcap : 0 < cap) (a : α) : (empty cap hcap a).toList = [] :=
  rfl

/-- An element enters at the end of the queue. -/
theorem toList_enqueue (b : RingBuffer α cap) (a : α) (h : b.len < cap) :
    (b.enqueue a h).toList = b.toList ++ [a] := by
  show (List.range (b.len + 1)).map _ = _
  rw [List.range_succ, List.map_append]
  refine congrArg₂ (· ++ ·) ?_ ?_
  · refine List.map_congr_left fun i hi => ?_
    have hi' : i < b.len := List.mem_range.1 hi
    refine Function.update_of_ne (fun heq => ?_) _ _
    rw [b.tail_eq] at heq
    have := cell_inj (by omega) h heq
    omega
  · simp [enqueue, b.tail_eq]

/-- The first element leaves. -/
theorem toList_dequeue (b : RingBuffer α cap) (h : 0 < b.len) :
    b.toList = b.front :: (b.dequeue h).toList := by
  obtain ⟨n, hn⟩ : ∃ n, b.len = n + 1 := ⟨b.len - 1, by omega⟩
  have hlen : (b.dequeue h).len = n := by
    simp [dequeue, hn]
  rw [toList, hn, List.range_succ_eq_map, List.map_cons, List.map_map, toList, hlen]
  refine congrArg₂ (· :: ·) ?_ ?_
  · simp [front, Nat.mod_eq_of_lt b.head_lt]
  · refine List.map_congr_left fun i _ => ?_
    simp only [Function.comp_apply, dequeue, Nat.mod_add_mod]
    rw [Nat.add_assoc, Nat.add_comm 1 i]

/-- The cells after the shift. -/
theorem shift_cell (b : RingBuffer α cap) {i p : Nat} (hp : p < cap) :
    b.shift i ((b.head + p) % cap) =
      if i ≤ p ∧ p < b.len - 1 then b.slots ((b.head + p + 1) % cap)
      else b.slots ((b.head + p) % cap) := by
  have hlen := b.len_le
  -- After {lit}`k` passes the cells at distances {lit}`i` to {lit}`i + k` hold their successors.
  have hloop : ∀ q, q < cap → b.shift i ((b.head + q) % cap) =
      if i ≤ q ∧ q < i + (b.len - 1 - i) then b.slots ((b.head + q + 1) % cap)
      else b.slots ((b.head + q) % cap) := by
    refine forRange_induct (fun k (slots : Nat → α) => ∀ q, q < cap →
      slots ((b.head + q) % cap) =
        if i ≤ q ∧ q < i + k then b.slots ((b.head + q + 1) % cap)
        else b.slots ((b.head + q) % cap)) ?_ ?_
    · intro q _
      rw [if_neg (by omega)]
    · intro k hk slots ih q hq
      by_cases hqk : q = i + k
      · subst hqk
        rw [Function.update_self, if_pos (by omega), Nat.add_assoc]
        rw [ih (i + k + 1) (by omega), if_neg (by omega), Nat.add_assoc]
      · rw [Function.update_of_ne, ih q hq]
        · congr 1
          apply propext
          omega
        · intro heq
          exact hqk (cell_inj hq (by omega) heq)
  rw [hloop p hp]
  congr 1
  apply propext
  omega

/-- An inner element leaves, and the others keep their order. -/
theorem toList_removeAt (b : RingBuffer α cap) {i : Nat} (h : 0 < b.len) (hi : i < b.len) :
    (b.removeAt i h).toList = b.toList.eraseIdx i := by
  have hlen := b.len_le
  have hnew : (b.removeAt i h).len = b.len - 1 := rfl
  apply List.ext_getElem?
  intro p
  rw [List.getElem?_eraseIdx]
  by_cases hp : p < b.len - 1
  · rw [getElem?_toList _ (by omega)]
    have hcell : (b.removeAt i h).slots (((b.removeAt i h).head + p) % cap) =
        b.shift i ((b.head + p) % cap) := rfl
    rw [hcell, shift_cell b (by omega)]
    by_cases hpi : p < i
    · rw [if_neg (by omega), if_pos hpi, getElem?_toList b (by omega)]
    · rw [if_pos (by omega), if_neg hpi, getElem?_toList b (by omega), Nat.add_assoc]
  · have hnone : (b.removeAt i h).toList[p]? = none := by
      rw [List.getElem?_eq_none_iff, length_toList]
      omega
    rw [hnone, if_neg (by omega)]
    symm
    rw [List.getElem?_eq_none_iff, length_toList]
    omega

theorem get_mem (b : RingBuffer α cap) {i : Nat} (hi : i < b.len) : b.get i ∈ b.toList :=
  List.mem_map.2 ⟨i, List.mem_range.2 hi, rfl⟩

/-- Removing an element leaves the others, as a multiset. -/
theorem perm_removeAt (b : RingBuffer α cap) {i : Nat} (h : 0 < b.len) (hi : i < b.len) :
    b.toList.Perm (b.get i :: (b.removeAt i h).toList) := by
  rw [toList_removeAt b h hi]
  have hget : b.toList[i]? = some (b.get i) := getElem?_toList b hi
  obtain ⟨hlt, heq⟩ := List.getElem?_eq_some_iff.1 hget
  rw [← heq]
  exact (List.getElem_cons_eraseIdx_perm hlt).symm

end RingBuffer

end SoKernel
