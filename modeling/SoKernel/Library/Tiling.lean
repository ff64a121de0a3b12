import Mathlib

/-!
# Tilings of an interval

A tiling cuts an interval of addresses into consecutive blocks without gap or
overlap.  Each block is open or has an owner.  The edits are those an allocator
makes: relabelling, merging two neighbours, splitting one block, and adding a
block at the end.

Main results:

- Theorem {lit}`Tiled.apart`: blocks at different places of a tiling do not
  overlap.
- Theorem {lit}`Tiled.openAddrs_sorted`: the open blocks are listed in strictly
  increasing order.
- Theorems {lit}`Tiled.release`, {lit}`Coalesced.release` and
  {lit}`ownedTiles_release`: releasing a block with merging on both sides keeps
  the tiling, leaves no two open neighbours and touches no other owner.
- Theorem {lit}`Tiled.unique`: without open neighbours, a tiling is determined by its interval
  and its owned blocks.
- Theorems {lit}`Tiled.openFits_split` and {lit}`Tiled.openFits_take`: the room that is left when
  an open block gives up its end, or goes as a whole.
- Theorem {lit}`Tiled.length_le`: without open neighbours, small open blocks leave room for
  little more than the owned ones.
-/

namespace SoKernel

/-- A block of a tiling: its first address, its length, and its owner if it has one. -/
structure Tile (β : Type) where
  addr : Nat
  len : Nat
  owner : Option β

variable {β : Type}

/-- The blocks follow each other from {lit}`lo` to {lit}`hi`. -/
def Tiled (lo : Nat) : List (Tile β) → Nat → Prop
  | [], hi => lo = hi
  | t :: ts, hi => t.addr = lo ∧ 0 < t.len ∧ Tiled (lo + t.len) ts hi

/-- The first addresses of the open blocks. -/
def openAddrs (ts : List (Tile β)) : List Nat :=
  ts.filterMap fun t => if t.owner.isNone then some t.addr else none

@[simp]
theorem openAddrs_nil : openAddrs ([] : List (Tile β)) = [] :=
  rfl

/-- The free tiles of a tiling in two parts. -/
@[simp]
theorem openAddrs_append (ts us : List (Tile β)) :
    openAddrs (ts ++ us) = openAddrs ts ++ openAddrs us := by
  simp [openAddrs]

/-- A free tile comes first. -/
theorem openAddrs_cons_open {t : Tile β} (h : t.owner = none) (ts : List (Tile β)) :
    openAddrs (t :: ts) = t.addr :: openAddrs ts := by
  simp [openAddrs, h]

/-- A tile with an owner is left out. -/
theorem openAddrs_cons_owned {t : Tile β} {o : β} (h : t.owner = some o) (ts : List (Tile β)) :
    openAddrs (t :: ts) = openAddrs ts := by
  simp [openAddrs, h]

/-- The addresses of the free tiles. -/
theorem mem_openAddrs {ts : List (Tile β)} {a : Nat} :
    a ∈ openAddrs ts ↔ ∃ t ∈ ts, t.owner = none ∧ t.addr = a := by
  simp [openAddrs]

/-! ## Bounds -/

/-- A tiling in two parts meets in the middle. -/
theorem tiled_append {ts us : List (Tile β)} {lo hi : Nat} :
    Tiled lo (ts ++ us) hi ↔ ∃ mid, Tiled lo ts mid ∧ Tiled mid us hi := by
  induction ts generalizing lo with
  | nil => simp [Tiled]
  | cons t ts ih =>
      simp only [List.cons_append, Tiled, ih]
      constructor
      · rintro ⟨ha, hl, mid, h1, h2⟩
        exact ⟨mid, ⟨ha, hl, h1⟩, h2⟩
      · rintro ⟨mid, ⟨ha, hl, h1⟩, h2⟩
        exact ⟨ha, hl, mid, h1, h2⟩

/-- What is tiled has no negative length. -/
theorem Tiled.le {ts : List (Tile β)} {lo hi : Nat} (h : Tiled lo ts hi) : lo ≤ hi := by
  induction ts generalizing lo with
  | nil => exact le_of_eq h
  | cons t ts ih =>
      have := ih h.2.2
      omega

/-- Every block lies inside the tiled interval and is not empty. -/
theorem Tiled.bounds {ts : List (Tile β)} {lo hi : Nat} (h : Tiled lo ts hi) {t : Tile β}
    (ht : t ∈ ts) : lo ≤ t.addr ∧ 0 < t.len ∧ t.addr + t.len ≤ hi := by
  induction ts generalizing lo with
  | nil => cases ht
  | cons u ts ih =>
      obtain ⟨haddr, hlen, hrest⟩ := h
      rcases List.mem_cons.1 ht with rfl | ht
      · have := hrest.le
        exact ⟨haddr.ge, hlen, by omega⟩
      · have := ih hrest ht
        omega

/-- Around one block: what precedes it ends where it starts, and what follows
starts where it ends. -/
theorem Tiled.around {pre post : List (Tile β)} {t : Tile β} {lo hi : Nat}
    (h : Tiled lo (pre ++ t :: post) hi) :
    Tiled lo pre t.addr ∧ 0 < t.len ∧ Tiled (t.addr + t.len) post hi := by
  obtain ⟨mid, hpre, hmid, hlen, hpost⟩ := tiled_append.1 h
  exact ⟨hmid ▸ hpre, hlen, hmid ▸ hpost⟩

/-- A tiling around one of its tiles. -/
theorem tiled_around {pre post : List (Tile β)} {t : Tile β} {lo hi : Nat} :
    Tiled lo (pre ++ t :: post) hi ↔
      Tiled lo pre t.addr ∧ 0 < t.len ∧ Tiled (t.addr + t.len) post hi := by
  refine ⟨Tiled.around, ?_⟩
  rintro ⟨hpre, hlen, hpost⟩
  exact tiled_append.2 ⟨t.addr, hpre, rfl, hlen, hpost⟩

/-- Two blocks with different addresses do not overlap. -/
theorem Tiled.apart {ts : List (Tile β)} {lo hi : Nat} (h : Tiled lo ts hi) {t u : Tile β}
    (ht : t ∈ ts) (hu : u ∈ ts) (hne : t.addr ≠ u.addr) :
    t.addr + t.len ≤ u.addr ∨ u.addr + u.len ≤ t.addr := by
  obtain ⟨pre, post, rfl⟩ := List.append_of_mem ht
  obtain ⟨hpre, hlen, hpost⟩ := h.around
  rcases List.mem_append.1 hu with hu | hu
  · exact .inr (hpre.bounds hu).2.2
  · rcases List.mem_cons.1 hu with rfl | hu
    · exact absurd rfl hne
    · exact .inl (hpost.bounds hu).1

/-- Blocks with the same address are the same block. -/
theorem Tiled.eq_of_addr_eq {ts : List (Tile β)} {lo hi : Nat} (h : Tiled lo ts hi)
    {t u : Tile β} (ht : t ∈ ts) (hu : u ∈ ts) (heq : t.addr = u.addr) : t = u := by
  obtain ⟨pre, post, rfl⟩ := List.append_of_mem ht
  obtain ⟨hpre, hlen, hpost⟩ := h.around
  rcases List.mem_append.1 hu with hu | hu
  · have := hpre.bounds hu
    omega
  · rcases List.mem_cons.1 hu with rfl | hu
    · rfl
    · have := hpost.bounds hu
      omega

/-- No tile is there twice. -/
theorem Tiled.nodup {ts : List (Tile β)} {lo hi : Nat} (h : Tiled lo ts hi) : ts.Nodup := by
  induction ts generalizing lo with
  | nil => exact List.nodup_nil
  | cons t ts ih =>
      obtain ⟨haddr, hlen, hrest⟩ := h
      refine List.nodup_cons.2 ⟨fun ht => ?_, ih hrest⟩
      have := (hrest.bounds ht).1
      omega

/-- The open blocks are listed in strictly increasing order. -/
theorem Tiled.openAddrs_sorted {ts : List (Tile β)} {lo hi : Nat} (h : Tiled lo ts hi) :
    (openAddrs ts).Pairwise (· < ·) := by
  induction ts generalizing lo with
  | nil => exact List.Pairwise.nil
  | cons t ts ih =>
      have hrest := ih h.2.2
      cases ho : t.owner with
      | some o => rwa [openAddrs_cons_owned ho]
      | none =>
          rw [openAddrs_cons_open ho]
          refine List.pairwise_cons.2 ⟨fun a ha => ?_, hrest⟩
          obtain ⟨u, hu, -, rfl⟩ := mem_openAddrs.1 ha
          have := h.2.2.bounds hu
          have := h.1
          have := h.2.1
          omega

/-- Free tiles lie within. -/
theorem Tiled.openAddrs_bounds {ts : List (Tile β)} {lo hi : Nat} (h : Tiled lo ts hi)
    {a : Nat} (ha : a ∈ openAddrs ts) : lo ≤ a ∧ a < hi := by
  obtain ⟨t, ht, -, rfl⟩ := mem_openAddrs.1 ha
  have := h.bounds ht
  omega

/-! ## Edits -/

/-- Changing the owner of a block. -/
theorem Tiled.relabel {pre post : List (Tile β)} {t : Tile β} {lo hi : Nat}
    (h : Tiled lo (pre ++ t :: post) hi) (o : Option β) :
    Tiled lo (pre ++ ⟨t.addr, t.len, o⟩ :: post) hi :=
  tiled_around.2 h.around

/-- Merging two neighbours. -/
theorem Tiled.merge {pre post : List (Tile β)} {t u : Tile β} {lo hi : Nat}
    (h : Tiled lo (pre ++ t :: u :: post) hi) (o : Option β) :
    Tiled lo (pre ++ ⟨t.addr, t.len + u.len, o⟩ :: post) hi := by
  obtain ⟨hpre, hlen, haddr, hlen', hpost⟩ := h.around
  exact tiled_around.2 ⟨hpre, by simp only; omega, by rwa [← Nat.add_assoc]⟩

/-- Splitting one block in two. -/
theorem Tiled.split {pre post : List (Tile β)} {t : Tile β} {lo hi k : Nat}
    (h : Tiled lo (pre ++ t :: post) hi) (hk : 0 < k) (hk' : k < t.len) (o o' : Option β) :
    Tiled lo (pre ++ ⟨t.addr, k, o⟩ :: ⟨t.addr + k, t.len - k, o'⟩ :: post) hi := by
  obtain ⟨hpre, hlen, hpost⟩ := h.around
  refine tiled_around.2 ⟨hpre, hk, rfl, by simp only; omega, ?_⟩
  have hend : t.addr + k + (t.len - k) = t.addr + t.len := by omega
  simpa only [hend] using hpost

/-- Adding a block at the end. -/
theorem Tiled.snoc {ts : List (Tile β)} {lo hi k : Nat} (h : Tiled lo ts hi) (hk : 0 < k)
    (o : Option β) : Tiled lo (ts ++ [⟨hi, k, o⟩]) (hi + k) :=
  tiled_around.2 ⟨h, hk, rfl⟩

/-! ## Releasing a block -/

/-- No two neighbours are both open. -/
def Coalesced (ts : List (Tile β)) : Prop :=
  ts.IsChain fun t u => t.owner.isSome ∨ u.owner.isSome

/-- The open block that {lit}`t` becomes together with an open block behind it,
and what remains behind. -/
def mergeUp (t : Tile β) : List (Tile β) → Tile β × List (Tile β)
  | [] => (⟨t.addr, t.len, none⟩, [])
  | u :: post =>
      if u.owner.isNone then (⟨t.addr, t.len + u.len, none⟩, post)
      else (⟨t.addr, t.len, none⟩, u :: post)

/-- Append a block, joining it to an open block at the end. -/
def mergeDown (pre : List (Tile β)) (t : Tile β) : List (Tile β) :=
  match pre.getLast? with
  | none => [t]
  | some l =>
      if l.owner.isNone then pre.dropLast ++ [⟨l.addr, l.len + t.len, t.owner⟩] else pre ++ [t]

/-- The tiling after the release of the block {lit}`t` between {lit}`pre` and {lit}`post`. -/
def release (pre : List (Tile β)) (t : Tile β) (post : List (Tile β)) : List (Tile β) :=
  mergeDown pre (mergeUp t post).1 ++ (mergeUp t post).2

/-- The blocks that have an owner. -/
def ownedTiles (ts : List (Tile β)) : List (Tile β) :=
  ts.filter fun t => t.owner.isSome

/-- A free tile above is joined. -/
theorem mergeUp_open {t u : Tile β} (h : u.owner = none) (post : List (Tile β)) :
    mergeUp t (u :: post) = (⟨t.addr, t.len + u.len, none⟩, post) := by
  simp [mergeUp, h]

/-- A tile above that has an owner is not. -/
theorem mergeUp_closed {t : Tile β} {post : List (Tile β)}
    (h : ∀ u ∈ post.head?, u.owner.isSome) : mergeUp t post = (⟨t.addr, t.len, none⟩, post) := by
  cases post with
  | nil => rfl
  | cons u post =>
      obtain ⟨o, ho⟩ := Option.isSome_iff_exists.1 (h u rfl)
      simp [mergeUp, ho]

/-- A free tile below is joined. -/
theorem mergeDown_open {l t : Tile β} (h : l.owner = none) (pre : List (Tile β)) :
    mergeDown (pre ++ [l]) t = pre ++ [⟨l.addr, l.len + t.len, t.owner⟩] := by
  simp [mergeDown, h]

/-- A tile below that has an owner is not. -/
theorem mergeDown_closed (pre : List (Tile β)) (t : Tile β)
    (h : ∀ l ∈ pre.getLast?, l.owner.isSome) : mergeDown pre t = pre ++ [t] := by
  unfold mergeDown
  cases hl : pre.getLast? with
  | none => simp [List.getLast?_eq_none_iff.1 hl]
  | some l =>
      obtain ⟨o, ho⟩ := Option.isSome_iff_exists.1 (h l hl)
      simp [ho]

/-- Upwards a block either swallows an open neighbour or stays as it is. -/
theorem mergeUp_cases (t : Tile β) (post : List (Tile β)) :
    (∃ u post', post = u :: post' ∧ u.owner = none ∧
        mergeUp t post = (⟨t.addr, t.len + u.len, none⟩, post')) ∨
      ((∀ u ∈ post.head?, u.owner.isSome) ∧ mergeUp t post = (⟨t.addr, t.len, none⟩, post)) := by
  cases post with
  | nil => exact .inr ⟨by simp, rfl⟩
  | cons u post =>
      cases ho : u.owner with
      | none => exact .inl ⟨u, post, rfl, ho, mergeUp_open ho post⟩
      | some o => exact .inr ⟨by simp [ho], mergeUp_closed (by simp [ho])⟩

/-- Downwards a block either joins an open neighbour or is appended. -/
theorem mergeDown_cases (pre : List (Tile β)) (t : Tile β) :
    (∃ pre' l, pre = pre' ++ [l] ∧ l.owner = none ∧
        mergeDown pre t = pre' ++ [⟨l.addr, l.len + t.len, t.owner⟩]) ∨
      ((∀ l ∈ pre.getLast?, l.owner.isSome) ∧ mergeDown pre t = pre ++ [t]) := by
  rcases List.eq_nil_or_concat' pre with rfl | ⟨pre, l, rfl⟩
  · exact .inr ⟨by simp, rfl⟩
  · cases ho : l.owner with
    | none => exact .inl ⟨pre, l, rfl, ho, mergeDown_open ho pre⟩
    | some o => exact .inr ⟨by simp [ho], mergeDown_closed _ _ (by simp [ho])⟩

/-- Joining the tile above keeps the tiling. -/
theorem Tiled.mergeUp {pre post : List (Tile β)} {t : Tile β} {lo hi : Nat}
    (h : Tiled lo (pre ++ t :: post) hi) :
    Tiled lo (pre ++ (mergeUp t post).1 :: (mergeUp t post).2) hi := by
  rcases mergeUp_cases t post with ⟨u, post', rfl, -, hm⟩ | ⟨-, hm⟩ <;> rw [hm]
  · exact h.merge none
  · exact h.relabel none

/-- Joining the tile below keeps the tiling. -/
theorem Tiled.mergeDown {pre post : List (Tile β)} {t : Tile β} {lo hi : Nat}
    (h : Tiled lo (pre ++ t :: post) hi) : Tiled lo (mergeDown pre t ++ post) hi := by
  rcases mergeDown_cases pre t with ⟨pre', l, rfl, -, hm⟩ | ⟨-, hm⟩ <;> rw [hm, List.append_assoc]
  · exact Tiled.merge (by simpa using h) t.owner
  · exact h

/-- A release keeps the tiling. -/
theorem Tiled.release {pre post : List (Tile β)} {t : Tile β} {lo hi : Nat}
    (h : Tiled lo (pre ++ t :: post) hi) : Tiled lo (release pre t post) hi :=
  h.mergeUp.mergeDown

/-- What is joined is free. -/
@[simp]
theorem mergeUp_owner (t : Tile β) (post : List (Tile β)) : (mergeUp t post).1.owner = none := by
  rcases mergeUp_cases t post with ⟨u, post', rfl, -, hm⟩ | ⟨-, hm⟩ <;> rw [hm]

/-- Joining the tile above keeps the address. -/
@[simp]
theorem mergeUp_addr (t : Tile β) (post : List (Tile β)) : (mergeUp t post).1.addr = t.addr := by
  rcases mergeUp_cases t post with ⟨u, post', rfl, -, hm⟩ | ⟨-, hm⟩ <;> rw [hm]

/-- Joining makes a tile no shorter. -/
theorem mergeUp_len (t : Tile β) (post : List (Tile β)) : t.len ≤ (mergeUp t post).1.len := by
  rcases mergeUp_cases t post with ⟨u, post', rfl, -, hm⟩ | ⟨-, hm⟩ <;> rw [hm]
  exact Nat.le_add_right _ _

/-- After a release the owned blocks are the others. -/
theorem ownedTiles_release (pre : List (Tile β)) (t : Tile β) (post : List (Tile β)) :
    ownedTiles (release pre t post) = ownedTiles pre ++ ownedTiles post := by
  have hup : ownedTiles (mergeUp t post).2 = ownedTiles post := by
    rcases mergeUp_cases t post with ⟨u, post', rfl, hu, hm⟩ | ⟨-, hm⟩ <;> rw [hm]
    simp [ownedTiles, hu]
  have hdown : ∀ u : Tile β, u.owner = none → ownedTiles (mergeDown pre u) = ownedTiles pre := by
    intro u hu
    rcases mergeDown_cases pre u with ⟨pre', l, rfl, hl, hm⟩ | ⟨-, hm⟩ <;> rw [hm]
    · simp [ownedTiles, hl, hu]
    · simp [ownedTiles, hu]
  rw [release, ownedTiles, List.filter_append]
  exact congrArg₂ (· ++ ·) (hdown _ (mergeUp_owner t post)) hup

/-- After a release one open block covers the released one. -/
theorem exists_cover_release {pre post : List (Tile β)} {t : Tile β} {lo hi : Nat}
    (h : Tiled lo (pre ++ t :: post) hi) :
    ∃ u ∈ release pre t post, u.owner = none ∧ u.addr ≤ t.addr ∧
      t.addr + t.len ≤ u.addr + u.len := by
  have haddr := mergeUp_addr t post
  have hlen := mergeUp_len t post
  have hown := mergeUp_owner t post
  rcases mergeDown_cases pre (mergeUp t post).1 with ⟨pre', l, rfl, -, hm⟩ | ⟨-, hm⟩
  · have hl : l.addr + l.len = t.addr := by
      have h' : Tiled lo (pre' ++ l :: t :: post) hi := by simpa using h
      exact h'.around.2.2.1.symm
    refine ⟨⟨l.addr, l.len + (mergeUp t post).1.len, (mergeUp t post).1.owner⟩, ?_, hown,
      by simp only; omega, by simp only; omega⟩
    simp [release, hm]
  · exact ⟨(mergeUp t post).1, by simp [release, hm], hown, haddr.le, by omega⟩

/-- A release leaves no two open neighbours. -/
theorem Coalesced.release {pre post : List (Tile β)} {t : Tile β}
    (h : Coalesced (pre ++ t :: post)) : Coalesced (release pre t post) := by
  obtain ⟨hpre, hpost⟩ : Coalesced (pre ++ [t]) ∧ Coalesced (t :: post) := List.isChain_split.1 h
  have hpost' : Coalesced post := (List.isChain_cons.1 hpost).2
  -- Behind the merged block there is nothing or an owned block.
  have hup : Coalesced (mergeUp t post).2 ∧ ∀ u ∈ (mergeUp t post).2.head?, u.owner.isSome := by
    rcases mergeUp_cases t post with ⟨u, post', rfl, hu, hm⟩ | ⟨hclosed, hm⟩ <;> rw [hm]
    · have hcons := List.isChain_cons.1 hpost'
      refine ⟨hcons.2, fun v hv => ?_⟩
      simpa [hu] using hcons.1 v hv
    · exact ⟨hpost', hclosed⟩
  have hjoin : ∀ (as : List (Tile β)) (u : Tile β), Coalesced (as ++ [u]) →
      Coalesced (as ++ [u] ++ (mergeUp t post).2) := by
    intro as u has
    rw [List.append_assoc]
    refine List.isChain_split.2 ⟨has, List.isChain_cons.2 ⟨fun v hv => ?_, hup.1⟩⟩
    exact .inr (hup.2 v hv)
  have hpre' : Coalesced pre := List.IsChain.left_of_append hpre
  rcases mergeDown_cases pre (mergeUp t post).1 with ⟨pre', l, rfl, hl, hm⟩ | ⟨hclosed, hm⟩
  · rw [SoKernel.release, hm]
    apply hjoin
    rw [Coalesced, List.isChain_append] at hpre' ⊢
    refine ⟨hpre'.1, List.isChain_singleton _, fun x hx y hy => ?_⟩
    have hxl := hpre'.2.2 x hx l (by simp)
    simp only [hl, Option.isSome_none, Bool.false_eq_true, or_false] at hxl
    exact .inl hxl
  · rw [SoKernel.release, hm]
    apply hjoin
    rw [Coalesced, List.isChain_append]
    exact ⟨hpre', List.isChain_singleton _, fun x hx y _ => .inl (hclosed x hx)⟩

/-! ## Room in the open blocks -/

/-- Some open block has length {lit}`n`. -/
def OpenFits (ts : List (Tile β)) (n : Nat) : Prop :=
  ∃ t ∈ ts, t.owner = none ∧ n ≤ t.len

/-- Some open block has length {lit}`n` beside the {lit}`k` that the block at {lit}`a` is to
give up. -/
def OpenFitsBeside (ts : List (Tile β)) (a k n : Nat) : Prop :=
  ∃ t ∈ ts, t.owner = none ∧ n + (if t.addr = a then k else 0) ≤ t.len

/-- No free tile fits when all of them are too short. -/
theorem not_openFits {ts : List (Tile β)} {n : Nat} :
    ¬ OpenFits ts n ↔ ∀ t ∈ ts, t.owner = none → t.len < n := by
  simp only [OpenFits, not_exists, not_and, not_le]

section Room

variable {pre post : List (Tile β)} {t u v : Tile β} {lo hi k n : Nat}

/-- The room in a tiling, seen from one open block. -/
theorem Tiled.openFitsBeside_iff (h : Tiled lo (pre ++ t :: post) hi) (ht : t.owner = none) :
    OpenFitsBeside (pre ++ t :: post) t.addr k n ↔ OpenFits (pre ++ post) n ∨ n + k ≤ t.len := by
  have hnodup := h.nodup
  rw [List.nodup_middle, List.nodup_cons] at hnodup
  have hother : ∀ x ∈ pre ++ post, x.addr ≠ t.addr := by
    intro x hx haddr
    have hmem : x ∈ pre ++ t :: post := by
      simp only [List.mem_append, List.mem_cons] at hx ⊢
      tauto
    have heq := h.eq_of_addr_eq hmem (by simp) haddr
    exact hnodup.1 (heq ▸ hx)
  constructor
  · rintro ⟨x, hx, hopen, hlen⟩
    have hx' : x = t ∨ x ∈ pre ++ post := by
      simp only [List.mem_append, List.mem_cons] at hx ⊢
      tauto
    rcases hx' with rfl | hx'
    · rw [if_pos rfl] at hlen
      exact .inr hlen
    · rw [if_neg (hother x hx')] at hlen
      exact .inl ⟨x, hx', hopen, hlen⟩
  · rintro (⟨x, hx, hopen, hlen⟩ | hlen)
    · refine ⟨x, ?_, hopen, ?_⟩
      · simp only [List.mem_append, List.mem_cons] at hx ⊢
        tauto
      · rw [if_neg (hother x hx)]
        exact hlen
    · refine ⟨t, by simp, ht, ?_⟩
      rw [if_pos rfl]
      exact hlen

/-- The room beside one block, and in it. -/
theorem openFits_middle (x : Tile β) :
    OpenFits (pre ++ x :: post) n ↔ OpenFits (pre ++ post) n ∨ x.owner = none ∧ n ≤ x.len := by
  have hmem : ∀ y, y ∈ pre ++ x :: post ↔ y ∈ pre ++ post ∨ y = x := by
    intro y
    simp only [List.mem_append, List.mem_cons]
    tauto
  constructor
  · rintro ⟨y, hy, hroom⟩
    rcases (hmem y).1 hy with hy | rfl
    · exact .inl ⟨y, hy, hroom⟩
    · exact .inr hroom
  · rintro (⟨y, hy, hroom⟩ | hroom)
    · exact ⟨y, (hmem y).2 (.inl hy), hroom⟩
    · exact ⟨x, (hmem x).2 (.inr rfl), hroom⟩

/-- A block that is taken gives no room. -/
theorem openFits_closed (hu : u.owner.isSome) :
    OpenFits (pre ++ u :: post) n ↔ OpenFits (pre ++ post) n := by
  have hclosed : ¬ (u.owner = none ∧ n ≤ u.len) := by
    rintro ⟨hnone, -⟩
    rw [hnone] at hu
    cases hu
  rw [openFits_middle, or_iff_left hclosed]

/-- The room when the end of an open block is taken. -/
theorem Tiled.openFits_split (h : Tiled lo (pre ++ t :: post) hi) (ht : t.owner = none)
    (hu : u.owner.isSome) (hv : v.owner = none) (hlen : t.len = v.len + k) :
    OpenFits (pre ++ v :: u :: post) n ↔ OpenFitsBeside (pre ++ t :: post) t.addr k n := by
  have hroom : v.owner = none ∧ n ≤ v.len ↔ n + k ≤ t.len := by
    rw [hlen]
    simp only [hv, true_and, Nat.add_le_add_iff_right]
  rw [h.openFitsBeside_iff ht, openFits_middle v, openFits_closed hu, hroom]

/-- The room when a whole open block is taken. -/
theorem Tiled.openFits_take (h : Tiled lo (pre ++ t :: post) hi) (ht : t.owner = none)
    (hu : u.owner.isSome) (hn : 0 < n) :
    OpenFits (pre ++ u :: post) n ↔ OpenFitsBeside (pre ++ t :: post) t.addr t.len n := by
  have hnone : ¬ n + t.len ≤ t.len := by omega
  rw [h.openFitsBeside_iff ht, openFits_closed hu, or_iff_left hnone]

/-- A block released at the end of a tiling is one open block with what was open before it. -/
theorem exists_open_release {ts : List (Tile β)} (t : Tile β) {c : Nat} (hc : 0 < c)
    (hsmall : ¬ OpenFits ts c) :
    ∃ v : Tile β, v.len < t.len + c ∧
      ∀ x ∈ release ts t [], x.owner = none → x = v ∨ x ∈ ts := by
  have hup : mergeUp t [] = (⟨t.addr, t.len, none⟩, []) := rfl
  rw [not_openFits] at hsmall
  rcases mergeDown_cases ts ⟨t.addr, t.len, none⟩ with ⟨pre, l, rfl, hl, hm⟩ | ⟨-, hm⟩
  · refine ⟨⟨l.addr, l.len + t.len, none⟩, ?_, fun x hx _ => ?_⟩
    · have := hsmall l (by simp) hl
      simp only
      omega
    · rw [release, hup, hm] at hx
      simp only [List.append_nil, List.mem_append, List.mem_singleton] at hx
      rcases hx with hx | rfl
      · exact .inr (by simp [hx])
      · exact .inl rfl
  · refine ⟨⟨t.addr, t.len, none⟩, by simp only; omega, fun x hx _ => ?_⟩
    rw [release, hup, hm] at hx
    simp only [List.append_nil, List.mem_append, List.mem_singleton] at hx
    exact hx.symm

end Room

/-! ## Uniqueness -/

/-- In a coalesced tiling the first block, if it is open, reaches to the end or to an owned
block. -/
theorem Tiled.open_reaches {ts : List (Tile β)} {t : Tile β} {lo hi : Nat}
    (h : Tiled lo (t :: ts) hi) (hc : Coalesced (t :: ts)) (ht : t.owner = none) :
    lo + t.len = hi ∨ ∃ u ∈ ts, u.owner.isSome ∧ u.addr = lo + t.len := by
  obtain ⟨haddr, -, hrest⟩ := h
  cases ts with
  | nil => exact .inl hrest
  | cons u ts =>
      have hown := (List.isChain_cons_cons.1 hc).1
      simp only [ht, Option.isSome_none, Bool.false_eq_true, false_or] at hown
      exact .inr ⟨u, List.mem_cons_self, hown, hrest.1⟩

/-- Two coalesced tilings that start with open blocks: the first block of one is no shorter
than that of the other, when the owned blocks of the first are in the second. -/
theorem Tiled.open_le {ts us : List (Tile β)} {t u : Tile β} {lo hi : Nat}
    (h : Tiled lo (t :: ts) hi) (h' : Tiled lo (u :: us) hi) (hc : Coalesced (t :: ts))
    (ht : t.owner = none) (hu : u.owner = none)
    (howned : ∀ x, x.owner.isSome → x ∈ ts → x ∈ u :: us) : u.len ≤ t.len := by
  have hend := h'.2.2.le
  rcases h.open_reaches hc ht with hreach | ⟨x, hx, hxo, hxa⟩
  · omega
  · rcases List.mem_cons.1 (howned x hxo hx) with rfl | hmem
    · rw [hu] at hxo
      cases hxo
    · have := (h'.2.2.bounds hmem).1
      omega

/-- A coalesced tiling is determined by its interval and its owned blocks. -/
theorem Tiled.unique {ts us : List (Tile β)} {lo hi : Nat} (h : Tiled lo ts hi)
    (h' : Tiled lo us hi) (hc : Coalesced ts) (hc' : Coalesced us)
    (howned : ∀ t, t.owner.isSome → (t ∈ ts ↔ t ∈ us)) : ts = us := by
  induction ts generalizing lo us with
  | nil =>
      cases us with
      | nil => rfl
      | cons u us =>
          have hend : lo = hi := h
          have := h'.bounds (t := u) (by simp)
          omega
  | cons t ts ih =>
      cases us with
      | nil =>
          have hend : lo = hi := h'
          have := h.bounds (t := t) (by simp)
          omega
      | cons u us =>
          have hfirst : t = u := by
            by_cases ht : t.owner.isSome
            · exact h'.eq_of_addr_eq ((howned t ht).1 List.mem_cons_self) List.mem_cons_self
                (h.1.trans h'.1.symm)
            · by_cases hu : u.owner.isSome
              · exact h.eq_of_addr_eq List.mem_cons_self ((howned u hu).2 List.mem_cons_self)
                  (h.1.trans h'.1.symm)
              · have hto : t.owner = none := Option.not_isSome_iff_eq_none.1 ht
                have huo : u.owner = none := Option.not_isSome_iff_eq_none.1 hu
                have hle := h.open_le h' hc hto huo fun x hxo hx =>
                  (howned x hxo).1 (List.mem_cons_of_mem _ hx)
                have hge := h'.open_le h hc' huo hto fun x hxo hx =>
                  (howned x hxo).2 (List.mem_cons_of_mem _ hx)
                have haddr := h.1.trans h'.1.symm
                cases t
                cases u
                simp only at *
                rw [haddr, hto, huo, le_antisymm hge hle]
          subst hfirst
          -- A block behind the first one is not the first one.
          have hne : ∀ {vs : List (Tile β)} {x : Tile β}, Tiled (lo + t.len) vs hi → x ∈ vs →
              x ≠ t := by
            rintro vs x hvs hx rfl
            have := (hvs.bounds hx).1
            have := h.1
            have := h.2.1
            omega
          rw [ih h.2.2 h'.2.2 (List.isChain_cons.1 hc).2 (List.isChain_cons.1 hc').2 fun x hx => ?_]
          have hx' := howned x hx
          simp only [List.mem_cons] at hx'
          constructor
          · intro hmem
            exact (hx'.1 (.inr hmem)).resolve_left (hne h.2.2 hmem)
          · intro hmem
            exact (hx'.2 (.inr hmem)).resolve_left (hne h'.2.2 hmem)

/-- A coalesced tiling without owned blocks is one block, unless its interval is empty. -/
theorem Tiled.eq_singleton {ts : List (Tile β)} {lo hi : Nat} (h : Tiled lo ts hi)
    (hc : Coalesced ts) (hopen : ∀ t ∈ ts, t.owner = none) (hlt : lo < hi) :
    ts = [⟨lo, hi - lo, none⟩] := by
  have hone : Tiled lo [(⟨lo, hi - lo, none⟩ : Tile β)] hi :=
    ⟨rfl, by simp only; omega, show lo + (hi - lo) = hi by omega⟩
  refine h.unique hone hc (List.isChain_singleton _) fun t ht => ⟨fun hmem => ?_, fun hmem => ?_⟩
  · rw [hopen t hmem] at ht
    cases ht
  · rw [List.mem_singleton.1 hmem] at ht
    cases ht

/-- The block without the name of its owner. -/
def Tile.anonymous (t : Tile β) : Tile Unit :=
  ⟨t.addr, t.len, t.owner.map fun _ => ()⟩

/-- Owners do not matter to a tiling. -/
theorem Tiled.anonymous {ts : List (Tile β)} {lo hi : Nat} (h : Tiled lo ts hi) :
    Tiled lo (ts.map Tile.anonymous) hi := by
  induction ts generalizing lo with
  | nil => exact h
  | cons t ts ih => exact ⟨h.1, h.2.1, ih h.2.2⟩

/-- Owners do not matter to whether free tiles are neighbours. -/
theorem Coalesced.anonymous {ts : List (Tile β)} (h : Coalesced ts) :
    Coalesced (ts.map Tile.anonymous) := by
  refine (List.isChain_map _).2 (h.imp fun t u htu => ?_)
  simpa [Tile.anonymous] using htu

/-- The open blocks, each with its length. -/
def openBlocks (ts : List (Tile β)) : List (Nat × Nat) :=
  ts.filterMap fun t => if t.owner.isNone then some (t.addr, t.len) else none

/-- The free tiles with their lengths. -/
theorem mem_openBlocks {ts : List (Tile β)} {b : Nat × Nat} :
    b ∈ openBlocks ts ↔ ∃ t ∈ ts, t.owner = none ∧ (t.addr, t.len) = b := by
  simp [openBlocks]

/-- The free tiles without their lengths. -/
theorem openBlocks_map_fst (ts : List (Tile β)) : (openBlocks ts).map Prod.fst = openAddrs ts := by
  unfold openBlocks openAddrs
  rw [List.map_filterMap]
  congr 1
  funext t
  split <;> rfl

/-- Owners do not matter to the free tiles. -/
theorem openBlocks_anonymous (ts : List (Tile β)) :
    openBlocks (ts.map Tile.anonymous) = openBlocks ts := by
  unfold openBlocks
  rw [List.filterMap_map]
  congr 1
  funext t
  simp [Tile.anonymous]

/-- An open block of a coalesced tiling does not end where another one starts. -/
theorem Tiled.not_adjacent {ts : List (Tile β)} {t u : Tile β} {lo hi : Nat}
    (h : Tiled lo ts hi) (hc : Coalesced ts) (ht : t ∈ ts) (hu : u ∈ ts) (hto : t.owner = none)
    (huo : u.owner = none) : t.addr + t.len ≠ u.addr := by
  intro hadj
  obtain ⟨pre, post, rfl⟩ := List.append_of_mem ht
  obtain ⟨hpre, hlen, hpost⟩ := h.around
  have hmem : u ∈ post := by
    rcases List.mem_append.1 hu with hu | hu
    · have := hpre.bounds hu
      omega
    · rcases List.mem_cons.1 hu with rfl | hu
      · omega
      · exact hu
  have hc' : Coalesced (t :: post) := (List.isChain_split.1 hc).2
  have htiled : Tiled t.addr (t :: post) hi := ⟨rfl, hlen, hpost⟩
  rcases htiled.open_reaches hc' hto with hend | ⟨v, hv, hvo, hva⟩
  · have := hpost.bounds hmem
    omega
  · have huv := hpost.eq_of_addr_eq hmem hv (hadj.symm.trans hva.symm)
    rw [← huv, huo] at hvo
    cases hvo

/-! ## Fragmentation -/

/-- The room of the owned blocks, each with {lit}`c` for an open block behind it. -/
def spacedLen (c : Nat) (ts : List (Tile β)) : Nat :=
  ((ownedTiles ts).map fun t => t.len + c).sum

/-- A tile with an owner counts, with the space that it needs besides. -/
theorem spacedLen_cons_owned {c : Nat} {t : Tile β} (ht : t.owner.isSome) (ts : List (Tile β)) :
    spacedLen c (t :: ts) = t.len + c + spacedLen c ts := by
  have howned : ownedTiles (t :: ts) = t :: ownedTiles ts := List.filter_cons_of_pos ht
  rw [spacedLen, howned, List.map_cons, List.sum_cons]
  rfl

/-- A free tile does not count. -/
theorem spacedLen_cons_open {c : Nat} {t : Tile β} (ht : t.owner = none) (ts : List (Tile β)) :
    spacedLen c (t :: ts) = spacedLen c ts := by
  have howned : ownedTiles (t :: ts) = ownedTiles ts := List.filter_cons_of_neg (by simp [ht])
  rw [spacedLen, howned]
  rfl

/-- Where no two neighbours are open and no open block is longer than {lit}`c`, there is at
most one such block before each owned one, and one at the end. -/
theorem Tiled.length_le {ts : List (Tile β)} {lo hi c : Nat} (h : Tiled lo ts hi)
    (hc : Coalesced ts) (hopen : ∀ t ∈ ts, t.owner = none → t.len ≤ c) :
    hi ≤ lo + spacedLen c ts + c ∧
      ((∀ t ∈ ts.head?, t.owner.isSome) → hi ≤ lo + spacedLen c ts) := by
  induction ts generalizing lo with
  | nil =>
      have hend : lo = hi := h
      simp only [spacedLen, ownedTiles, List.filter_nil, List.map_nil, List.sum_nil]
      omega
  | cons t ts ih =>
      obtain ⟨haddr, hlen, hrest⟩ := h
      obtain ⟨hhead, htail⟩ := List.isChain_cons.1 hc
      have hts := ih hrest htail fun u hu => hopen u (List.mem_cons_of_mem _ hu)
      cases ho : t.owner with
      | some o =>
          rw [spacedLen_cons_owned (by simp [ho])]
          have := hts.1
          omega
      | none =>
          -- The block behind an open one is owned.
          rw [spacedLen_cons_open ho]
          have hle := hopen t List.mem_cons_self ho
          have hnext := hts.2 fun u hu => by simpa [ho] using hhead u hu
          refine ⟨by omega, fun hsome => ?_⟩
          have := hsome t rfl
          simp [ho] at this

end SoKernel
