import Mathlib

/-!
# Loops and their invariant rules

Counted and conditional loops over an explicit state, with and without an early
exit, and one invariant rule for each.  A conditional loop runs on a fuel
argument; its rule asks for a measure that the body decreases, so that the fuel
is never the reason for stopping.

Main results:

- Theorems {lit}`forRange_induct` and {lit}`tryRange_induct`: invariants of
  counted loops.
- Theorem {lit}`forRange_map`: a loop that carries more state runs like the loop on a part
  of it.
- Theorems {lit}`whileLoop_induct` and {lit}`tryWhile_induct`: invariants and
  termination of conditional loops.
-/

namespace SoKernel

variable {σ ε : Type}

/-! ## Counted loops -/

/-- {lit}`for (i = 0; i < n; i++)`. -/
def forRange : Nat → (Nat → σ → σ) → σ → σ
  | 0, _, s => s
  | n + 1, body, s => body n (forRange n body s)

/-- {lit}`for (i = 0; i < n; i++)` whose body may leave the function. -/
def tryRange : Nat → (Nat → σ → Except ε σ) → σ → Except ε σ
  | 0, _, s => .ok s
  | n + 1, body, s =>
      match tryRange n body s with
      | .ok s' => body n s'
      | .error e => .error e

@[simp]
theorem forRange_zero (body : Nat → σ → σ) (s : σ) : forRange 0 body s = s :=
  rfl

theorem forRange_succ (n : Nat) (body : Nat → σ → σ) (s : σ) :
    forRange (n + 1) body s = body n (forRange n body s) :=
  rfl

/-- A property that every pass carries from {lit}`i` to {lit}`i + 1` holds at the end. -/
theorem forRange_induct {n : Nat} {body : Nat → σ → σ} {s : σ} (P : Nat → σ → Prop)
    (hinit : P 0 s) (hstep : ∀ i, i < n → ∀ t, P i t → P (i + 1) (body i t)) :
    P n (forRange n body s) := by
  induction n with
  | zero => exact hinit
  | succ n ih =>
      rw [forRange_succ]
      exact hstep n (Nat.lt_succ_self n) _ (ih fun i hi => hstep i (by omega))

/-- A loop and a loop on a part of its state. -/
theorem forRange_map {τ : Type} {n : Nat} {body : Nat → σ → σ} {body' : Nat → τ → τ} (f : σ → τ)
    (h : ∀ i s, f (body i s) = body' i (f s)) (s : σ) :
    f (forRange n body s) = forRange n body' (f s) := by
  induction n with
  | zero => rfl
  | succ n ih => rw [forRange_succ, forRange_succ, h, ih]

/-- The rule for a counted loop with an early exit: {lit}`Q` is what an exit promises. -/
theorem tryRange_induct {n : Nat} {body : Nat → σ → Except ε σ} {s : σ}
    (P : Nat → σ → Prop) (Q : ε → Prop) (hinit : P 0 s)
    (hstep : ∀ i, i < n → ∀ t, P i t →
      (∀ t', body i t = .ok t' → P (i + 1) t') ∧ (∀ e, body i t = .error e → Q e)) :
    (∀ t, tryRange n body s = .ok t → P n t) ∧ (∀ e, tryRange n body s = .error e → Q e) := by
  induction n with
  | zero =>
      refine ⟨fun t ht => ?_, fun e he => by cases he⟩
      cases ht
      exact hinit
  | succ n ih =>
      obtain ⟨hok, herr⟩ := ih fun i hi => hstep i (by omega)
      cases hrest : tryRange n body s with
      | ok t =>
          have hlast := hstep n (Nat.lt_succ_self n) t (hok t hrest)
          simpa [tryRange, hrest] using hlast
      | error e =>
          refine ⟨fun t ht => ?_, fun e' he => ?_⟩
          · simp [tryRange, hrest] at ht
          · simp only [tryRange, hrest, Except.error.injEq] at he
            exact he ▸ herr e hrest

/-! ## Conditional loops -/

/-- {lit}`while (cond)`, run for at most the given number of passes. -/
def whileLoop : Nat → (σ → Bool) → (σ → σ) → σ → σ
  | 0, _, _, s => s
  | n + 1, cond, body, s => if cond s then whileLoop n cond body (body s) else s

/-- {lit}`while (cond)` whose body may leave the function. -/
def tryWhile : Nat → (σ → Bool) → (σ → Except ε σ) → σ → Except ε σ
  | 0, _, _, s => .ok s
  | n + 1, cond, body, s =>
      if cond s then
        match body s with
        | .ok s' => tryWhile n cond body s'
        | .error e => .error e
      else .ok s

/-- With fuel for its measure, a conditional loop ends with its condition false
and with every property its body preserves. -/
theorem whileLoop_induct {n : Nat} {cond : σ → Bool} {body : σ → σ} {s : σ}
    (P : σ → Prop) (μ : σ → Nat) (hfuel : μ s ≤ n) (hinit : P s)
    (hstep : ∀ t, P t → cond t = true → P (body t) ∧ μ (body t) < μ t)
    (hdone : ∀ t, P t → μ t = 0 → cond t = false) :
    P (whileLoop n cond body s) ∧ cond (whileLoop n cond body s) = false := by
  induction n generalizing s with
  | zero => exact ⟨hinit, hdone s hinit (by omega)⟩
  | succ n ih =>
      cases hc : cond s with
      | true =>
          have hnext := hstep s hinit hc
          simp only [whileLoop, hc, if_true]
          exact ih (by omega) hnext.1
      | false => simpa [whileLoop, hc] using hinit

/-- The rule for a conditional loop with an early exit. -/
theorem tryWhile_induct {n : Nat} {cond : σ → Bool} {body : σ → Except ε σ} {s : σ}
    (P : σ → Prop) (Q : ε → Prop) (μ : σ → Nat) (hfuel : μ s ≤ n) (hinit : P s)
    (hstep : ∀ t, P t → cond t = true →
      (∀ t', body t = .ok t' → P t' ∧ μ t' < μ t) ∧ (∀ e, body t = .error e → Q e))
    (hdone : ∀ t, P t → μ t = 0 → cond t = false) :
    (∀ t, tryWhile n cond body s = .ok t → P t ∧ cond t = false) ∧
      (∀ e, tryWhile n cond body s = .error e → Q e) := by
  induction n generalizing s with
  | zero =>
      refine ⟨fun t ht => ?_, fun e he => by cases he⟩
      cases ht
      exact ⟨hinit, hdone s hinit (by omega)⟩
  | succ n ih =>
      cases hc : cond s with
      | false =>
          refine ⟨fun t ht => ?_, fun e he => ?_⟩
          · simp only [tryWhile, hc, Bool.false_eq_true, if_false, Except.ok.injEq] at ht
            exact ht ▸ ⟨hinit, hc⟩
          · simp [tryWhile, hc] at he
      | true =>
          obtain ⟨hok, herr⟩ := hstep s hinit hc
          cases hb : body s with
          | ok t =>
              have hnext := hok t hb
              simpa [tryWhile, hc, hb] using ih (by omega) hnext.1
          | error e =>
              refine ⟨fun t ht => ?_, fun e' he => ?_⟩
              · simp [tryWhile, hc, hb] at ht
              · simp only [tryWhile, hc, hb, if_true, Except.error.injEq] at he
                exact he ▸ herr e hb

end SoKernel
