import Mathlib

/-!
# Drivers and devices

A driver is a list of accesses to ports: bytes that it writes, and bits that it polls until one of
them is set.  The device moves on its own between two accesses, and nothing is known of when it
does.

The module has triples for drivers, with the rules of a logic in which the device interferes: what
is asserted between two accesses must be kept by the moves of the device.

Main results:

- Theorem {lit}`Run.uncons`: a run of a driver is a run of its first access and one of the rest.
- Theorems {lit}`Triple.out` and {lit}`Triple.poll`: the rules for the two accesses.
- Theorem {lit}`finishes_of_fair`: a driver and its device come to an end when no poll starves the device.
-/

namespace SoKernel

/-- What a driver does on the ports. -/
inductive PortAction where
  | out (port : UInt16) (value : UInt8)
  | poll (port : UInt16) (mask : UInt8)
deriving DecidableEq

/-- The driver that writes the given bytes. -/
def outs (writes : List (UInt16 × UInt8)) : List PortAction :=
  writes.map fun w => .out w.1 w.2

/-- A device behind the ports. -/
structure Device (δ : Type) where
  out : UInt16 → UInt8 → δ → δ
  read : UInt16 → δ → UInt8
  move : δ → δ → Prop

namespace Device

variable {δ : Type} {D : Device δ}

/-- A step of the device or of the driver.  A poll that finds the bits clear is made again. -/
inductive Step (D : Device δ) : δ × List PortAction → δ × List PortAction → Prop
  | move {s s' : δ} (p : List PortAction) (h : D.move s s') : Step D (s, p) (s', p)
  | out (s : δ) (port : UInt16) (value : UInt8) (p : List PortAction) :
      Step D (s, .out port value :: p) (D.out port value s, p)
  | ready {s : δ} {port : UInt16} {mask : UInt8} (p : List PortAction)
      (h : D.read port s &&& mask ≠ 0) : Step D (s, .poll port mask :: p) (s, p)
  | busy {s : δ} {port : UInt16} {mask : UInt8} (p : List PortAction)
      (h : D.read port s &&& mask = 0) :
      Step D (s, .poll port mask :: p) (s, .poll port mask :: p)

/-- The runs of a driver, in any interleaving with the moves of the device. -/
def Run (D : Device δ) : δ × List PortAction → δ × List PortAction → Prop :=
  Relation.ReflTransGen (Step D)

/-! ## Runs -/

/-- What is to be done later does not matter for a step. -/
theorem Step.append {c c' : δ × List PortAction} (h : Step D c c') (q : List PortAction) :
    Step D (c.1, c.2 ++ q) (c'.1, c'.2 ++ q) := by
  cases h with
  | move p h => exact .move _ h
  | out s port value p => exact .out s port value _
  | ready p h => exact .ready _ h
  | busy p h => exact .busy _ h

theorem Run.append {c c' : δ × List PortAction} (h : Run D c c') (q : List PortAction) :
    Run D (c.1, c.2 ++ q) (c'.1, c'.2 ++ q) := by
  induction h with
  | refl => exact .refl
  | tail _ hstep ih => exact ih.tail (hstep.append q)

/-- One driver after the other. -/
theorem Run.seq {s s₁ s₂ : δ} {p q r : List PortAction} (h : Run D (s, p) (s₁, []))
    (h' : Run D (s₁, q) (s₂, r)) : Run D (s, p ++ q) (s₂, r) :=
  (h.append q).trans h'

/-- The first access, and the rest. -/
theorem Run.uncons {s s' : δ} {a : PortAction} {p : List PortAction}
    (h : Run D (s, a :: p) (s', [])) :
    ∃ s₁, Run D (s, [a]) (s₁, []) ∧ Run D (s₁, p) (s', []) := by
  generalize hc : (s, a :: p) = c at h
  induction h using Relation.ReflTransGen.head_induction_on generalizing s with
  | refl => cases hc
  | head hstep htail ih =>
      subst hc
      cases hstep with
      | move p hmove =>
          obtain ⟨s₁, hfirst, hrest⟩ := ih rfl
          exact ⟨s₁, hfirst.head (.move _ hmove), hrest⟩
      | out s port value p => exact ⟨_, .single (.out _ _ _ _), htail⟩
      | ready p hready => exact ⟨_, .single (.ready _ hready), htail⟩
      | busy p hbusy => exact ih rfl

/-- A driver that only writes can be run with the device at rest. -/
theorem Run.exists_outs (D : Device δ) (writes : List (UInt16 × UInt8)) (s : δ) :
    ∃ s', Run D (s, outs writes) (s', []) := by
  induction writes generalizing s with
  | nil => exact ⟨s, .refl⟩
  | cons w writes ih =>
      obtain ⟨s', hrun⟩ := ih (D.out w.1 w.2 s)
      exact ⟨s', hrun.head (.out s w.1 w.2 _)⟩

/-! ## Triples -/

/-- The moves of the device keep the assertion. -/
def Stable (D : Device δ) (P : δ → Prop) : Prop :=
  ∀ s s', P s → D.move s s' → P s'

/-- From a state with {lit}`P`, every run of the driver to its end leads to {lit}`Q`. -/
def Triple (D : Device δ) (P : δ → Prop) (p : List PortAction) (Q : δ → Prop) : Prop :=
  ∀ s s', P s → Run D (s, p) (s', []) → Q s'

variable {P Q R : δ → Prop} {p q : List PortAction} {port : UInt16} {value mask : UInt8}

/-- A driver that is done. -/
theorem Triple.nil (hP : Stable D P) : Triple D P [] P := by
  intro s s' hs hrun
  generalize hc : (s, ([] : List PortAction)) = c at hrun
  induction hrun using Relation.ReflTransGen.head_induction_on generalizing s with
  | refl =>
      cases hc
      exact hs
  | head hstep _ ih =>
      subst hc
      cases hstep with
      | move p h => exact ih _ (hP _ _ hs h) rfl

/-- A byte that is written: the device moves before it. -/
theorem Triple.out (hP : Stable D P) (hout : ∀ s, P s → Q (D.out port value s))
    (h : Triple D Q p R) : Triple D P (.out port value :: p) R := by
  intro s s' hs hrun
  generalize hc : (s, PortAction.out port value :: p) = c at hrun
  induction hrun using Relation.ReflTransGen.head_induction_on generalizing s with
  | refl => cases hc
  | head hstep htail ih =>
      subst hc
      cases hstep with
      | move p h => exact ih _ (hP _ _ hs h) rfl
      | out s port value p => exact h _ _ (hout _ hs) htail

/-- A poll: one of the bits is set when it ends. -/
theorem Triple.poll (hP : Stable D P)
    (hpoll : ∀ s, P s → D.read port s &&& mask ≠ 0 → Q s) (h : Triple D Q p R) :
    Triple D P (.poll port mask :: p) R := by
  intro s s' hs hrun
  generalize hc : (s, PortAction.poll port mask :: p) = c at hrun
  induction hrun using Relation.ReflTransGen.head_induction_on generalizing s with
  | refl => cases hc
  | head hstep htail ih =>
      subst hc
      cases hstep with
      | move p h => exact ih _ (hP _ _ hs h) rfl
      | ready p hready => exact h _ _ (hpoll _ hs hready) htail
      | busy p hbusy => exact ih _ hs rfl

/-- One driver after the other. -/
theorem Triple.seq (h : Triple D P p Q) (h' : Triple D Q q R) : Triple D P (p ++ q) R := by
  induction p generalizing P with
  | nil =>
      intro s s' hs hrun
      exact h' s s' (h s s hs .refl) hrun
  | cons a p ih =>
      intro s s' hs hrun
      obtain ⟨s₁, hfirst, hrest⟩ := Run.uncons hrun
      have hp : Triple D (fun s => s = s₁) p Q := by
        rintro _ s₂ rfl hsecond
        exact h s s₂ hs (hfirst.seq hsecond)
      exact ih hp s₁ s' rfl hrest

/-- A driver that only writes, seen through a function that the moves of the device do not
change. -/
theorem Run.foldl_out {τ : Type} {f : δ → τ} {g : UInt16 → UInt8 → τ → τ} {s s' : δ}
    {writes : List (UInt16 × UInt8)} (hmove : ∀ s s', D.move s s' → f s' = f s)
    (hout : ∀ port value s, f (D.out port value s) = g port value (f s))
    (h : Run D (s, outs writes) (s', [])) :
    f s' = writes.foldl (fun x w => g w.1 w.2 x) (f s) := by
  have htriple : ∀ x, Triple D (fun s => f s = x) (outs writes)
      (fun s => f s = writes.foldl (fun x w => g w.1 w.2 x) x) := by
    clear h
    induction writes with
    | nil => exact fun x => Triple.nil fun s s' hs hstep => (hmove s s' hstep).trans hs
    | cons w writes ih =>
        intro x
        refine Triple.out (fun s s' hs hstep => (hmove s s' hstep).trans hs) (fun s hs => ?_)
          (ih (g w.1 w.2 x))
        rw [hout, hs]
  exact htriple (f s) s s' rfl h

/-! ## The end of a driver -/

/-- A schedule takes a step or does nothing.  When something changes whenever something can, the
driver and the device come to a configuration {lit}`E`, if every change is paid for by a measure
and before {lit}`E` something can change. -/
theorem finishes_of_fair (I E : δ × List PortAction → Prop) (μ : δ × List PortAction → Nat)
    (hI : ∀ c c', I c → Step D c c' → I c') (hμ : ∀ c c', Step D c c' → c' = c ∨ μ c' < μ c)
    (hprogress : ∀ c, I c → ¬ E c → ∃ c', Step D c c' ∧ c' ≠ c)
    (c : Nat → δ × List PortAction) (hstart : I (c 0))
    (hstep : ∀ n, c (n + 1) = c n ∨ Step D (c n) (c (n + 1)))
    (hfair : ∀ n, (∃ c', Step D (c n) c' ∧ c' ≠ c n) → ∃ m, n ≤ m ∧ c (m + 1) ≠ c m) :
    ∃ n, E (c n) := by
  by_contra hnever
  rw [not_exists] at hnever
  have hinv : ∀ n, I (c n) := by
    intro n
    induction n with
    | zero => exact hstart
    | succ n ih =>
        rcases hstep n with hsame | hnext
        · rw [hsame]
          exact ih
        · exact hI _ _ ih hnext
  have hlower : ∀ n, c (n + 1) = c n ∨ μ (c (n + 1)) < μ (c n) := fun n =>
    (hstep n).elim .inl (hμ _ _)
  have hmono : ∀ m n, m ≤ n → μ (c n) ≤ μ (c m) := by
    intro m n hmn
    induction n, hmn using Nat.le_induction with
    | base => exact le_rfl
    | succ n hmn ih =>
        rcases hlower n with hsame | hless
        · rw [hsame]
          exact ih
        · omega
  -- By induction on the measure: some later change lowers it.
  have hdescent : ∀ b n, μ (c n) = b → False := by
    intro b
    induction b using Nat.strong_induction_on with
    | h b ih =>
        intro n hb
        obtain ⟨m, hnm, hchange⟩ := hfair n (hprogress _ (hinv n) (hnever n))
        have hless := (hlower m).resolve_left hchange
        have hle := hmono n m hnm
        exact ih (μ (c (m + 1))) (by omega) (m + 1) rfl
  exact hdescent _ 0 rfl

end Device

end SoKernel
