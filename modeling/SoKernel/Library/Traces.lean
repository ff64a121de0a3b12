import Mathlib

/-!
# Traces of a transition relation

A transition relation with labels, its traces, and the rules for what holds along a whole
trace: properties that every step keeps, relations to the traces of a second system that
takes a step for each step, and measures that bound how often a step can be taken.

Main results:

- Theorem {lit}`Trace.invariant`: a property that every step keeps holds along traces.
- Theorem {lit}`Trace.lockstep`: a relation that every step keeps relates whole traces.
- Theorem {lit}`Trace.cost_le`: a measure that pays for every step bounds what a trace costs.
- Theorem {lit}`Trace.unique`: when a part of its label determines a step, these parts determine
  the trace.
-/

namespace SoKernel

variable {σ τ α β : Type}

/-- The traces from {lit}`s₀`: the labels of the steps in order, and the state they lead to. -/
inductive Trace (step : σ → α → σ → Prop) (s₀ : σ) : List α → σ → Prop
  | start : Trace step s₀ [] s₀
  | next {as : List α} {a : α} {s s' : σ} (hs : Trace step s₀ as s) (ha : step s a s') :
      Trace step s₀ (as ++ [a]) s'

namespace Trace

variable {step : σ → α → σ → Prop} {step' : τ → α → τ → Prop} {ok : α → Prop} {s₀ s : σ}
  {as : List α} {a : α}

/-- The condition on the labels of a trace splits at its last step. -/
theorem ok_append (hok : ∀ b ∈ as ++ [a], ok b) : (∀ b ∈ as, ok b) ∧ ok a :=
  ⟨fun b hb => hok b (List.mem_append_left _ hb),
    hok a (List.mem_append_right _ List.mem_cons_self)⟩

/-- A property of the state that every step keeps holds along traces. -/
theorem invariant (P : σ → Prop) (h₀ : P s₀)
    (hstep : ∀ s a s', P s → ok a → step s a s' → P s') (h : Trace step s₀ as s)
    (hok : ∀ a ∈ as, ok a) : P s := by
  induction h with
  | start => exact h₀
  | next hs ha ih =>
      obtain ⟨hbefore, hlast⟩ := ok_append hok
      exact hstep _ _ _ (ih hbefore) hlast ha

/-- When a second system answers every step with a step of the same label, it answers whole
traces. -/
theorem lockstep {t₀ : τ} (R : σ → τ → Prop) (h₀ : R s₀ t₀)
    (hstep : ∀ s t a s', R s t → ok a → step s a s' → ∃ t', step' t a t' ∧ R s' t')
    (h : Trace step s₀ as s) (hok : ∀ a ∈ as, ok a) : ∃ t, Trace step' t₀ as t ∧ R s t := by
  induction h with
  | start => exact ⟨t₀, .start, h₀⟩
  | next hs ha ih =>
      obtain ⟨hbefore, hlast⟩ := ok_append hok
      obtain ⟨t, ht, hrel⟩ := ih hbefore
      obtain ⟨t', ht', hrel'⟩ := hstep _ _ _ _ hrel hlast ha
      exact ⟨t', ht.next ht', hrel'⟩

/-- A measure from which every step takes at least its cost bounds what a trace costs. -/
theorem cost_le (P : σ → Prop) (μ : σ → Nat) (cost : α → Nat) (h₀ : P s₀)
    (hstep : ∀ s a s', P s → ok a → step s a s' → P s' ∧ μ s' + cost a ≤ μ s)
    (h : Trace step s₀ as s) (hok : ∀ a ∈ as, ok a) : P s ∧ μ s + (as.map cost).sum ≤ μ s₀ := by
  induction h with
  | start => exact ⟨h₀, by simp⟩
  | next hs ha ih =>
      obtain ⟨hbefore, hlast⟩ := ok_append hok
      obtain ⟨hP, hcost⟩ := ih hbefore
      obtain ⟨hP', hpaid⟩ := hstep _ _ _ hP hlast ha
      refine ⟨hP', ?_⟩
      rw [List.map_append, List.sum_append, List.map_singleton, List.sum_singleton]
      omega

/-- Traces are determined by those parts of the labels that determine the steps. -/
theorem unique (part : α → β)
    (hstep : ∀ s a a' s₁ s₂, step s a s₁ → step s a' s₂ → part a = part a' → a = a' ∧ s₁ = s₂)
    (h : Trace step s₀ as s) {bs : List α} {s' : σ} (h' : Trace step s₀ bs s')
    (hparts : as.map part = bs.map part) : as = bs ∧ s = s' := by
  induction h generalizing bs s' with
  | start =>
      cases h' with
      | start => exact ⟨rfl, rfl⟩
      | next hs ha => simp at hparts
  | next hs ha ih =>
      cases h' with
      | start => simp at hparts
      | next hs' ha' =>
          rw [List.map_append, List.map_append] at hparts
          obtain ⟨hbefore, hlast⟩ := List.append_inj' hparts rfl
          obtain ⟨rfl, rfl⟩ := ih hs' hbefore
          obtain ⟨rfl, rfl⟩ := hstep _ _ _ _ _ ha ha' (List.cons.inj hlast).1
          exact ⟨rfl, rfl⟩

end Trace

end SoKernel
