import SoKernel.Library.Traces

/-!
# Processes with memories of their own

A machine in which every process has a memory that is its own: a process stores into its
memory, makes a process with a copy of it, exchanges it for an image, or leaves.  Nothing
else changes a memory, so a process finds at the end of a run what its own actions have
made of the memory that it had at the start.

Main results:

- Theorem {lit}`Memories.replay_of_trace`: along every trace, the memory of a process is the
  replay of its own changes.
- Theorem {lit}`Memories.same_of_traces`: two traces in which a process makes the same changes
  leave it the same memory, whatever the others do.
-/

namespace SoKernel

/-- The memory of every process that lives: the contents of the addresses that it has. -/
abbrev Memories (π α β : Type) : Type :=
  π → Option (α → Option β)

/-- What a process does to the memories. -/
inductive MemoryAction (π α β : Type) where
  | store (a : α) (b : β)
  | clone (child : π)
  | load (image : α → Option β)
  | leave
  | pass

variable {π α β : Type} [DecidableEq π] [DecidableEq α]

/-- What an action makes of the memory of the process that takes it. -/
def MemoryAction.apply (m : α → Option β) : MemoryAction π α β → α → Option β
  | .store a b => Function.update m a (some b)
  | .load image => image
  | _ => m

/-- Whether an action changes the memory of the process that takes it. -/
def MemoryAction.changes : MemoryAction π α β → Bool
  | .store _ _ => true
  | .load _ => true
  | .leave => true
  | _ => false

namespace Memories

/-- One action of a process. -/
inductive Step (M : Memories π α β) : π × MemoryAction π α β → Memories π α β → Prop
  | store {p : π} {m : α → Option β} {a : α} {b : β} (hp : M p = some m) (ha : m a ≠ none) :
      Step M (p, .store a b) (Function.update M p (some (Function.update m a (some b))))
  | clone {p child : π} {m : α → Option β} (hp : M p = some m) (hfresh : M child = none) :
      Step M (p, .clone child) (Function.update M child (some m))
  | load {p : π} {m image : α → Option β} (hp : M p = some m) :
      Step M (p, .load image) (Function.update M p (some image))
  | leave {p : π} {m : α → Option β} (hp : M p = some m) :
      Step M (p, .leave) (Function.update M p none)
  | pass {p : π} : Step M (p, .pass) M

/-- The actions by which the process {lit}`p` changes its memory, in order. -/
def own (p : π) (as : List (π × MemoryAction π α β)) : List (MemoryAction π α β) :=
  (as.filter fun a => a.1 = p ∧ a.2.changes = true).map Prod.snd

/-- What a list of actions makes of the memory of the process that takes them. -/
def replay (m : α → Option β) (acts : List (MemoryAction π α β)) : α → Option β :=
  acts.foldl MemoryAction.apply m

variable {M M' N N' : Memories π α β} {as bs : List (π × MemoryAction π α β)} {p : π}

omit [DecidableEq α] in
theorem own_append (p : π) (as : List (π × MemoryAction π α β)) (a : π × MemoryAction π α β) :
    own p (as ++ [a]) = own p as ++ if a.1 = p ∧ a.2.changes = true then [a.2] else [] := by
  unfold own
  rw [List.filter_append, List.map_append]
  by_cases ha : a.1 = p ∧ a.2.changes = true
  · rw [if_pos ha, List.filter_cons_of_pos (by simpa using ha)]
    rfl
  · rw [if_neg ha, List.filter_cons_of_neg (by simpa using ha)]
    rfl

omit [DecidableEq π] in
theorem replay_append (m : α → Option β) (acts : List (MemoryAction π α β))
    (act : MemoryAction π α β) : replay m (acts ++ [act]) = act.apply (replay m acts) := by
  simp [replay]

/-- A process keeps its memory in every step that is not a change of its own. -/
theorem Step.other {a : π × MemoryAction π α β} (h : Step M a M')
    (hother : ¬ (a.1 = p ∧ a.2.changes = true)) {m : α → Option β} (hp : M p = some m) :
    M' p = some m := by
  have hne : ∀ q, ¬ (q = p ∧ true = true) → p ≠ q := fun q hq heq => hq ⟨heq.symm, rfl⟩
  cases h with
  | store hown ha => rw [Function.update_of_ne (hne _ hother), hp]
  | @clone q child m' hown hfresh =>
      have hchild : p ≠ child := by
        rintro rfl
        rw [hp] at hfresh
        cases hfresh
      rw [Function.update_of_ne hchild, hp]
  | load hown => rw [Function.update_of_ne (hne _ hother), hp]
  | leave hown => rw [Function.update_of_ne (hne _ hother), hp]
  | pass => exact hp

/-- A change other than leaving does to the memory of its process what it says. -/
theorem Step.self {act : MemoryAction π α β} (h : Step M (p, act) M')
    (hchanges : act.changes = true) (hstay : act ≠ .leave) {m : α → Option β}
    (hp : M p = some m) : M' p = some (act.apply m) := by
  cases h with
  | store hown ha =>
      rw [hp, Option.some.injEq] at hown
      rw [Function.update_self, hown]
      rfl
  | clone hown hfresh => cases hchanges
  | load hown =>
      rw [Function.update_self]
      rfl
  | leave hown => exact absurd rfl hstay
  | pass => cases hchanges

/-- Along every trace in which a process stays, its memory is the replay of its own changes. -/
theorem replay_of_trace (h : Trace Step M as M') {m : α → Option β} (hp : M p = some m)
    (hstay : .leave ∉ own p as) : M' p = some (replay m (own p as)) := by
  induction h with
  | start => exact hp
  | @next as a M₁ M₂ hs ha ih =>
      rw [own_append, List.mem_append, not_or] at hstay
      have hbefore := ih hstay.1
      rw [own_append]
      by_cases hown : a.1 = p ∧ a.2.changes = true
      · rw [if_pos hown, List.mem_singleton] at hstay
        rw [if_pos hown, replay_append]
        obtain ⟨q, act⟩ := a
        obtain ⟨rfl, hchanges⟩ := hown
        exact ha.self hchanges (Ne.symm hstay.2) hbefore
      · rw [if_neg hown, List.append_nil]
        exact ha.other hown hbefore

/-- The actions of the others do not matter. -/
theorem same_of_traces (h : Trace Step M as M') (h' : Trace Step N bs N') (hsame : M p = N p)
    (hlives : M p ≠ none) (hown : own p as = own p bs) (hstay : .leave ∉ own p as) :
    M' p = N' p := by
  obtain ⟨m, hm⟩ := Option.ne_none_iff_exists'.1 hlives
  have hleft := replay_of_trace h hm hstay
  have hright := replay_of_trace h' (hsame ▸ hm) (hown ▸ hstay)
  rw [hleft, hright, hown]

end Memories

end SoKernel
