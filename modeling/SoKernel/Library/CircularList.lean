import Mathlib

/-!
# Circular singly linked lists

A circular list is given by its successor function and the list of its nodes in
order.  This module has the local edits of such a list (insertion, removal and
replacement behind a node), its rotations, and the search that follows the
successors until a stopping condition holds.

Main results:

- Theorem {lit}`IsRing.rotate_iff`: the nodes may be listed from any of them.
- Theorems {lit}`IsRing.insert_after`, {lit}`IsRing.remove_after` and
  {lit}`IsRing.replace_after`: the edits behind one node.
- Theorem {lit}`IsRing.lap_eq`: following the successors of a node for one lap lists the others.
- Theorem {lit}`IsRing.seek_eq`: a search with a unique stopping node finds it
  from every start within one lap.
- Theorem {lit}`IsRing.seek_insertion`: on an ordered ring the search for an
  insertion point ends at the largest node below the new value.
-/

namespace SoKernel

variable {α : Type}

/-- Consecutive members are successors of each other. -/
def Linked (next : α → α) (l : List α) : Prop :=
  l.IsChain fun x y => next x = y

/-- The successor function runs through the listed nodes and back to the first. -/
def IsRing (next : α → α) : List α → Prop
  | [] => False
  | a :: l => Linked next (a :: l ++ [a])

variable {next next' : α → α}

theorem Linked.congr {l : List α} {a : α} (h : Linked next (l ++ [a]))
    (hsame : ∀ x ∈ l, next' x = next x) : Linked next' (l ++ [a]) := by
  induction l with
  | nil => exact List.isChain_singleton a
  | cons x l ih =>
      cases l with
      | nil =>
          have hx : next x = a := by simpa [Linked] using h
          simp [Linked, hsame x (by simp), hx]
      | cons y l =>
          have hsplit : next x = y ∧ Linked next ((y :: l) ++ [a]) := by
            simpa [Linked, List.isChain_cons_cons] using h
          have htail := ih hsplit.2 fun z hz => hsame z (by simp [hz])
          have hx : next' x = y := (hsame x (by simp)).trans hsplit.1
          simpa [Linked, List.isChain_cons_cons, hx] using htail

/-- The successors of all but the last member are the members behind the first. -/
theorem Linked.next_mem {l : List α} {a b q : α} (h : Linked next (a :: l ++ [b]))
    (hq : q ∈ a :: l) : next q ∈ l ++ [b] := by
  induction l generalizing a with
  | nil =>
      have ha : next a = b := by simpa [Linked] using h
      obtain rfl : q = a := by simpa using hq
      simp [ha]
  | cons c l ih =>
      have hsplit : next a = c ∧ Linked next (c :: l ++ [b]) := by
        simpa [Linked, List.isChain_cons_cons] using h
      rcases List.mem_cons.1 hq with rfl | hq
      · simp [hsplit.1]
      · exact List.mem_cons_of_mem _ (ih hsplit.2 hq)

/-- A ring depends only on the successors of its nodes. -/
theorem IsRing.congr {l : List α} (h : IsRing next l) (hsame : ∀ x ∈ l, next' x = next x) :
    IsRing next' l := by
  cases l with
  | nil => exact h
  | cons a l => exact Linked.congr h hsame

/-- Turning a ring by moving an initial segment behind the rest. -/
theorem IsRing.rotate {A B : List α} {x : α} (h : IsRing next (A ++ x :: B)) :
    IsRing next (x :: B ++ A) := by
  cases A with
  | nil => simpa using h
  | cons a A =>
      have h' : Linked next ((a :: A) ++ x :: (B ++ [a])) := by
        simpa [IsRing] using h
      rw [Linked, List.isChain_split] at h'
      have hgoal : Linked next ((x :: B) ++ a :: (A ++ [x])) := by
        rw [Linked, List.isChain_split]
        exact ⟨by simpa using h'.2, by simpa using h'.1⟩
      simpa [IsRing] using hgoal

/-- A ring may be listed from any of its nodes. -/
theorem IsRing.rotate_iff {A B : List α} {x : α} :
    IsRing next (A ++ x :: B) ↔ IsRing next (x :: B ++ A) := by
  refine ⟨IsRing.rotate, fun h => ?_⟩
  cases A with
  | nil => simpa using h
  | cons a A => exact IsRing.rotate h

/-- In a ring listed from {lit}`x`, the successor of {lit}`x` is the next node,
and the rest is linked back to {lit}`x`. -/
theorem isRing_cons {x : α} {l : List α} :
    IsRing next (x :: l) ↔ (∀ y ∈ (l ++ [x]).head?, next x = y) ∧ Linked next (l ++ [x]) := by
  show Linked next (x :: (l ++ [x])) ↔ _
  rw [Linked, List.isChain_cons]
  rfl

/-- The successor of a listed node. -/
theorem IsRing.next_eq {A B : List α} {x : α} (h : IsRing next (A ++ x :: B)) :
    ∀ y ∈ (B ++ A ++ [x]).head?, next x = y := by
  have hrot := h.rotate
  rw [List.cons_append, isRing_cons] at hrot
  exact hrot.1

/-- Successors stay on the ring. -/
theorem IsRing.next_mem {l : List α} {x : α} (h : IsRing next l) (hx : x ∈ l) : next x ∈ l := by
  obtain ⟨A, B, rfl⟩ := List.append_of_mem hx
  have hnext := h.next_eq
  cases hl : B ++ A with
  | nil =>
      rw [hl] at hnext
      simp [hnext x (by simp)]
  | cons y t =>
      rw [hl] at hnext
      have hy : y ∈ B ++ A := by simp [hl]
      rw [hnext y (by simp)]
      simp only [List.mem_append, List.mem_cons] at hy ⊢
      tauto

/-! ## Edits -/

/-- Insert a node behind {lit}`x`. -/
theorem IsRing.insert_after {A B : List α} {x y : α} (h : IsRing next (A ++ x :: B))
    (hx : next' x = y) (hy : next' y = next x)
    (hsame : ∀ z ∈ A ++ B, next' z = next z) : IsRing next' (A ++ x :: y :: B) := by
  rw [IsRing.rotate_iff] at h ⊢
  rw [List.cons_append, isRing_cons] at h
  rw [List.cons_append, List.cons_append, isRing_cons]
  refine ⟨by simp [hx], ?_⟩
  have htail : Linked next' ((B ++ A) ++ [x]) :=
    Linked.congr h.2 fun z hz => hsame z (by simpa [or_comm] using hz)
  refine List.isChain_cons.2 ⟨fun z hz => ?_, htail⟩
  rw [hy]
  exact h.1 z hz

/-- Remove the node behind {lit}`x`. -/
theorem IsRing.remove_after {A B : List α} {x y : α} (h : IsRing next (A ++ x :: y :: B))
    (hx : next' x = next y) (hsame : ∀ z ∈ A ++ B, next' z = next z) :
    IsRing next' (A ++ x :: B) := by
  rw [IsRing.rotate_iff] at h ⊢
  rw [List.cons_append, List.cons_append, isRing_cons] at h
  rw [List.cons_append, isRing_cons]
  have hy := List.isChain_cons.1 h.2
  refine ⟨fun z hz => ?_, ?_⟩
  · rw [hx]
    exact hy.1 z hz
  · exact Linked.congr hy.2 fun z hz => hsame z (by simpa [or_comm] using hz)

/-- Put another node in the place of the node behind {lit}`x`. -/
theorem IsRing.replace_after {A B : List α} {x y z : α} (h : IsRing next (A ++ x :: y :: B))
    (hx : next' x = z) (hz : next' z = next y) (hsame : ∀ w ∈ A ++ B, next' w = next w) :
    IsRing next' (A ++ x :: z :: B) := by
  rw [IsRing.rotate_iff] at h ⊢
  rw [List.cons_append, List.cons_append, isRing_cons] at h ⊢
  have hy := List.isChain_cons.1 h.2
  refine ⟨by simp [hx], ?_⟩
  have htail : Linked next' ((B ++ A) ++ [x]) :=
    Linked.congr hy.2 fun w hw => hsame w (by simpa [or_comm] using hw)
  refine List.isChain_cons.2 ⟨fun w hw => ?_, htail⟩
  rw [hz]
  exact hy.1 w hw

/-- On a ring without repetitions the successor function is injective. -/
theorem IsRing.next_injective {l : List α} {x y : α} (h : IsRing next l) (hl : l.Nodup)
    (hx : x ∈ l) (hy : y ∈ l) (hxy : next x = next y) : x = y := by
  -- A ring visits its nodes in order, so the successors are the nodes turned by one.
  have hmap : l.map next = l.rotate 1 := by
    cases l with
    | nil => rfl
    | cons a t =>
        have hpath : ∀ (t : List α) (a b : α), Linked next (a :: t ++ [b]) →
            (a :: t).map next = t ++ [b] := by
          intro t
          induction t with
          | nil =>
              intro a b hab
              simpa [Linked] using hab
          | cons c t ih =>
              intro a b hab
              have hsplit : next a = c ∧ Linked next ((c :: t) ++ [b]) := by
                simpa [Linked, List.isChain_cons_cons] using hab
              have hrest := ih c b hsplit.2
              simp only [List.map_cons, List.cons_append] at hrest ⊢
              rw [hsplit.1, hrest]
        rw [List.rotate_cons_succ, List.rotate_zero]
        exact hpath t a a h
  have hnodup : (l.map next).Nodup := by
    rw [hmap]
    exact List.nodup_rotate.2 hl
  exact List.inj_on_of_nodup_map hnodup hx hy hxy

/-! ## Laps -/

/-- One lap from any node: the other nodes in between. -/
theorem IsRing.exists_lap {l : List α} {a : α} (h : IsRing next l) (hl : l.Nodup) (ha : a ∈ l) :
    ∃ t, Linked next (a :: t ++ [a]) ∧ a ∉ t ∧ t.length + 1 = l.length ∧
      ∀ x, x ∈ a :: t ↔ x ∈ l := by
  obtain ⟨A, B, rfl⟩ := List.append_of_mem ha
  refine ⟨B ++ A, h.rotate, fun hmem => ?_, ?_, fun x => ?_⟩
  · rw [List.nodup_middle, List.nodup_cons] at hl
    apply hl.1
    rw [List.mem_append] at hmem ⊢
    exact hmem.symm
  · simp only [List.length_append, List.length_cons]
    omega
  · simp only [List.mem_append, List.mem_cons]
    tauto

/-- The nodes from {lit}`x` on, up to the first return to {lit}`b`. -/
def lap [DecidableEq α] (next : α → α) (b : α) : Nat → α → List α
  | 0, _ => []
  | n + 1, x => if x = b then [] else x :: lap next b n (next x)

theorem lap_of_linked [DecidableEq α] {b a : α} {l : List α} {n : Nat}
    (h : Linked next (a :: l ++ [b])) (hb : b ∉ l) (hn : l.length < n) :
    lap next b n (next a) = l := by
  induction l generalizing a n with
  | nil =>
      obtain ⟨n, rfl⟩ : ∃ k, n = k + 1 := ⟨n - 1, by omega⟩
      have hnext : next a = b := by simpa [Linked] using h
      rw [lap, if_pos hnext]
  | cons c l ih =>
      obtain ⟨n, rfl⟩ : ∃ k, n = k + 1 := ⟨n - 1, by omega⟩
      have hsplit : next a = c ∧ Linked next (c :: l ++ [b]) := by
        simpa [Linked, List.isChain_cons_cons] using h
      have hcb : c ≠ b := fun heq => hb (by simp [heq])
      rw [hsplit.1, lap, if_neg hcb, ih hsplit.2 (fun hmem => hb (by simp [hmem]))]
      rw [List.length_cons] at hn
      omega

/-- Following the successors of the first node for one lap lists the others. -/
theorem IsRing.lap_eq [DecidableEq α] {b : α} {l : List α} {n : Nat} (h : IsRing next (b :: l))
    (hl : (b :: l).Nodup) (hn : l.length < n) : lap next b n (next b) = l :=
  lap_of_linked h (List.nodup_cons.1 hl).1 hn

/-! ## Searching -/

/-- Follow successors until the stopping condition holds. -/
def seek (next : α → α) (stop : α → Bool) : Nat → α → Option α
  | 0, _ => none
  | n + 1, x => if stop x then some x else seek next stop n (next x)

theorem seek_of_linked {stop : α → Bool} {t a : α} {l : List α} {n : Nat}
    (h : Linked next (a :: l)) (ht : t ∈ a :: l) (hstop : stop t = true)
    (honly : ∀ x ∈ a :: l, stop x = true → x = t) (hn : (a :: l).length ≤ n) :
    seek next stop n a = some t := by
  induction l generalizing a n with
  | nil =>
      obtain ⟨n, rfl⟩ : ∃ k, n = k + 1 := ⟨n - 1, by simp at hn; omega⟩
      have hta : t = a := by simpa using ht
      subst hta
      simp [seek, hstop]
  | cons b l ih =>
      obtain ⟨n, rfl⟩ : ∃ k, n = k + 1 := ⟨n - 1, by simp at hn; omega⟩
      have hsplit := List.isChain_cons_cons.1 h
      by_cases ha : stop a = true
      · have hat := honly a (by simp) ha
        simp [seek, hat, hstop]
      · have htb : t ∈ b :: l := by
          rcases List.mem_cons.1 ht with rfl | htb
          · exact absurd hstop ha
          · exact htb
        simp only [seek, ha, Bool.false_eq_true, if_false, hsplit.1]
        exact ih hsplit.2 htb (fun x hx => honly x (by simp [hx]))
          (by simp only [List.length_cons] at hn ⊢; omega)

/-- A search with a unique stopping node finds it from every start within one lap. -/
theorem IsRing.seek_eq {stop : α → Bool} {t a : α} {l : List α} {n : Nat}
    (h : IsRing next l) (ha : a ∈ l) (ht : t ∈ l) (hstop : stop t = true)
    (honly : ∀ x ∈ l, stop x = true → x = t) (hn : l.length ≤ n) :
    seek next stop n a = some t := by
  obtain ⟨A, B, rfl⟩ := List.append_of_mem ha
  have hrot := h.rotate
  have hlink : Linked next (a :: (B ++ A)) := by
    have hring : Linked next ((a :: (B ++ A)) ++ [a]) := by simpa [IsRing] using hrot
    exact List.IsChain.left_of_append hring
  refine seek_of_linked hlink ?_ hstop (fun x hx => honly x ?_) ?_
  · simp only [List.mem_cons, List.mem_append] at ht ⊢
    tauto
  · simp only [List.mem_cons, List.mem_append] at hx ⊢
    tauto
  · simp only [List.length_cons, List.length_append] at hn ⊢
    omega

/-- A search that may stop nowhere on the ring does not end. -/
theorem IsRing.seek_none {stop : α → Bool} {a : α} {l : List α} (h : IsRing next l) (ha : a ∈ l)
    (hstop : ∀ x ∈ l, stop x = false) (n : Nat) : seek next stop n a = none := by
  induction n generalizing a with
  | zero => rfl
  | succ n ih =>
      rw [seek, hstop a ha, if_neg Bool.false_ne_true]
      exact ih (h.next_mem ha)

/-! ## Rings in increasing order -/

section Ordered

variable {next : Nat → Nat}

/-- On a ring listed in increasing order, a node is followed by the next larger
node, and the largest node by the first one. -/
theorem IsRing.next_of_sorted {b : Nat} {l : List Nat} (h : IsRing next (b :: l))
    (hsort : (b :: l).Pairwise (· < ·)) {x : Nat} (hx : x ∈ b :: l) :
    (x < next x ∧ ∀ y ∈ b :: l, y ≤ x ∨ next x ≤ y) ∨
      (next x = b ∧ ∀ y ∈ b :: l, y ≤ x) := by
  obtain ⟨A, B, hl⟩ := List.append_of_mem hx
  rw [hl] at h hsort ⊢
  have hnext := h.next_eq
  rw [List.pairwise_append, List.pairwise_cons] at hsort
  obtain ⟨-, ⟨hxB, hB⟩, hA⟩ := hsort
  cases B with
  | nil =>
      -- The largest node: the ring closes.
      right
      have hhead : next x = b := by
        apply hnext
        cases A with
        | nil => simp [(List.cons.inj hl).1]
        | cons a A => simp [(List.cons.inj hl).1]
      refine ⟨hhead, fun y hy => ?_⟩
      simp only [List.mem_append, List.mem_singleton] at hy
      rcases hy with hy | rfl
      · exact (hA y hy x (by simp)).le
      · exact le_rfl
  | cons c B =>
      left
      have hc : next x = c := hnext c (by simp)
      rw [hc]
      refine ⟨hxB c (by simp), fun y hy => ?_⟩
      simp only [List.mem_append, List.mem_cons] at hy
      rcases hy with hy | rfl | rfl | hy
      · exact .inl (hA y hy x (by simp)).le
      · exact .inl le_rfl
      · exact .inr le_rfl
      · exact .inr ((List.pairwise_cons.1 hB).1 y hy).le

/-- The stopping condition of an ordered insertion: {lit}`v` falls between a node
and its successor, or beyond the place where the order wraps. -/
def insertsAfter (next : Nat → Nat) (v x : Nat) : Bool :=
  (decide (v > x) && decide (v < next x)) ||
    (decide (x ≥ next x) && (decide (v > x) || decide (v < next x)))

/-- On an ordered ring the insertion condition holds exactly at the largest node
below the new value. -/
theorem IsRing.insertsAfter_iff {b v : Nat} {l : List Nat} (h : IsRing next (b :: l))
    (hsort : (b :: l).Pairwise (· < ·)) (hb : b < v) (hv : v ∉ b :: l) {x : Nat}
    (hx : x ∈ b :: l) :
    insertsAfter next v x = true ↔ x < v ∧ ∀ y ∈ b :: l, y < v → y ≤ x := by
  simp only [insertsAfter, Bool.or_eq_true, Bool.and_eq_true, decide_eq_true_eq]
  rcases h.next_of_sorted hsort hx with ⟨hlt, hgap⟩ | ⟨hwrap, hmax⟩
  · have hmem : next x ∈ b :: l := h.next_mem hx
    have hne : next x ≠ v := fun heq => hv (heq ▸ hmem)
    constructor
    · intro hstop
      refine ⟨by omega, fun y hy hyv => ?_⟩
      rcases hgap y hy with hle | hle <;> omega
    · rintro ⟨hxv, hbest⟩
      have := hbest (next x) hmem
      omega
  · rw [hwrap]
    constructor
    · intro hstop
      exact ⟨by omega, fun y hy _ => hmax y hy⟩
    · rintro ⟨hxv, -⟩
      have := hmax b (by simp)
      omega

/-- The search for an insertion point ends at the largest node below the new value. -/
theorem IsRing.seek_insertion {b v p a : Nat} {l : List Nat} {n : Nat}
    (h : IsRing next (b :: l)) (hsort : (b :: l).Pairwise (· < ·)) (hb : b < v)
    (hv : v ∉ b :: l) (hp : p ∈ b :: l) (hpv : p < v) (hbest : ∀ y ∈ b :: l, y < v → y ≤ p)
    (ha : a ∈ b :: l) (hn : (b :: l).length ≤ n) :
    seek next (insertsAfter next v) n a = some p := by
  refine h.seek_eq ha hp ((h.insertsAfter_iff hsort hb hv hp).2 ⟨hpv, hbest⟩) (fun x hx hstop => ?_) hn
  obtain ⟨hxv, hxbest⟩ := (h.insertsAfter_iff hsort hb hv hx).1 hstop
  exact le_antisymm (hbest x hx hxv) (hxbest p hp hpv)

/-- The search for the insertion point of a value that is on the ring stops nowhere. -/
theorem IsRing.insertsAfter_of_mem {b v : Nat} {l : List Nat} (h : IsRing next (b :: l))
    (hsort : (b :: l).Pairwise (· < ·)) (hv : v ∈ b :: l) {x : Nat} (hx : x ∈ b :: l) :
    insertsAfter next v x = false := by
  have hfirst : b ≤ v := by
    rcases List.mem_cons.1 hv with rfl | hv
    · exact le_rfl
    · exact ((List.pairwise_cons.1 hsort).1 v hv).le
  rw [← Bool.not_eq_true]
  simp only [insertsAfter, Bool.or_eq_true, Bool.and_eq_true, decide_eq_true_eq]
  rcases h.next_of_sorted hsort hx with ⟨hlt, hgap⟩ | ⟨hwrap, hmax⟩
  · have := hgap v hv
    omega
  · have := hmax v hv
    rw [hwrap]
    omega

end Ordered

end SoKernel
