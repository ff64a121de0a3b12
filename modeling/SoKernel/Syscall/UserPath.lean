import SoKernel.Syscall.ExecBuilds

/-!
# The path of an exec

{lit}`copy_user_string` reads the path of an exec byte by byte through the pointer that the
caller has left in {lit}`ebx`.  It refuses the null pointer and asks nothing else of the
address: neither that the page is mapped, nor that user mode may read it.

The addresses of the reads are instrumented here.  {lit}`copyUserReads` follows the recursion
of {lit}`copyUserBytes` and lists what it reads.

Main results:

- Theorem {lit}`mem_copyUserReads_iff`: the copy reads on until the terminator or a fault.
- Theorem {lit}`exec_reads_user_iff`: in every reachable state an exec keeps to the memory of
  its caller exactly when the path ends before that memory does.
- Theorem {lit}`exec_reads_kernel`: a call whose path lies in the kernel image.
-/

namespace SoKernel

/-! ## The reads of the copy -/

/-- The addresses that the loop of {lit}`copy_user_string` reads, in this order. -/
def copyUserReads (read : Nat → Option UInt8) : Nat → Nat → List Nat
  | 0, _ => []
  | n + 1, ptr =>
      ptr :: match read ptr with
        | none => []
        | some c => if c = 0 then [] else copyUserReads read n (u32 (ptr + 1))

/-- The copy reads an address when every byte before it is there and is not the
terminator. -/
theorem mem_copyUserReads_iff {read : Nat → Option UInt8} {n ptr a : Nat} (hptr : ptr < 2 ^ 32) :
    a ∈ copyUserReads read n ptr ↔
      ∃ i, i < n ∧ a = u32 (ptr + i) ∧ ∀ j, j < i → ∃ c, read (u32 (ptr + j)) = some c ∧ c ≠ 0 := by
  have hself : u32 (ptr + 0) = ptr := Nat.mod_eq_of_lt hptr
  induction n generalizing ptr with
  | zero => simp [copyUserReads]
  | succ n ih =>
      have hnext : u32 (ptr + 1) < 2 ^ 32 := Nat.mod_lt _ (by norm_num)
      have hstep : ∀ i, u32 (u32 (ptr + 1) + i) = u32 (ptr + (i + 1)) := by
        intro i
        unfold u32
        omega
      have hrest := ih hnext (Nat.mod_eq_of_lt hnext)
      simp only [hstep] at hrest
      simp only [copyUserReads, List.mem_cons]
      constructor
      · rintro (rfl | ha)
        · exact ⟨0, by omega, hself.symm, fun j hj => by omega⟩
        · cases hc : read ptr with
          | none => simp [hc] at ha
          | some c =>
              by_cases hzero : c = 0
              · simp [hc, hzero] at ha
              · simp only [hc, if_neg hzero] at ha
                obtain ⟨i, hi, rfl, hbefore⟩ := hrest.1 ha
                refine ⟨i + 1, by omega, rfl, fun j hj => ?_⟩
                cases j with
                | zero => exact ⟨c, by rw [hself, hc], hzero⟩
                | succ j => exact hbefore j (by omega)
      · rintro ⟨i, hi, rfl, hbefore⟩
        cases i with
        | zero => exact .inl hself
        | succ i =>
            obtain ⟨c, hc, hzero⟩ := hbefore 0 (by omega)
            rw [hself] at hc
            refine .inr ?_
            simp only [hc, if_neg hzero]
            exact hrest.2 ⟨i, by omega, rfl, fun j hj => hbefore (j + 1) (by omega)⟩

namespace Kernel

section UserPath

variable {L : Layout} {R : Nat → Prop} {safe : Prop} {B : BootInfo} {k k₀ : Kernel}
  {kernelByte : Nat → Option UInt8} {frame : SyscallFrame}

/-- The addresses that {lit}`sys_exec` reads through the path pointer. -/
def execReads (k : Kernel) (kernelByte : Nat → Option UInt8) (frame : SyscallFrame) : List Nat :=
  if frame.ebx = 0 then []
  else copyUserReads (k.store.mem.readVirtual kernelByte) execPathMax frame.ebx

/-- The byte that the current process reads at an address; none where its directory has no
page that is present and open to user mode. -/
def callerByte (k : Kernel) (va : Nat) : Option UInt8 :=
  k.store.mem.userByte k.current.pdt va

/-- Within the bytes of a path, the string at {lit}`ptr` comes to an address that the current
process can not read before it comes to its terminator. -/
def PathRunsOut (k : Kernel) (ptr : Nat) : Prop :=
  ∃ i, i < execPathMax ∧ k.callerByte (u32 (ptr + i)) = none ∧
    ∀ j, j < i → k.callerByte (u32 (ptr + j)) ≠ some 0

/-- An exec reads only what its caller may read, and refuses a path that runs out of it. -/
structure ExecReadsUser (k : Kernel) (kernelByte : Nat → Option UInt8) (frame : SyscallFrame) :
    Prop where
  reads : ∀ a ∈ k.execReads kernelByte frame, k.callerByte a ≠ none
  refused : k.PathRunsOut frame.ebx →
    ∃ k' frame', k.sysExec kernelByte frame = some (minusOne, k', frame')

/-! ## What the caller may read -/

/-- The kernel's addresses are closed to user mode. -/
theorem Inv.callerByte_kernel (h : Inv L R safe k) {va : Nat} (hlo : 0xC0000000 ≤ va)
    (hhi : va < 2 ^ 32) : k.callerByte va = none := by
  obtain ⟨hpdt, hloaded⟩ := h.loaded
  have hspaces := h.holding.store.spaces
  have hspace := hspaces.space _ hloaded
  have hclosed : userReadable
      (k.store.mem.phys.word (k.dirOf k.sched.currentPcb) (va / 2 ^ 22)) = false := by
    rcases Nat.lt_or_ge 768 (va / 2 ^ 22) with hhigh | hlow
    · rw [hspace.high _ hhigh (by omega)]
      rfl
    · rw [show va / 2 ^ 22 = 768 by omega, hspace.kernel]
      simp [userReadable, hspaces.pde.2]
  rw [callerByte, hpdt, Memory.userByte, Nat.mul_div_cancel_left _ (by norm_num)]
  simp only [hclosed, Bool.false_eq_true, false_and, if_false]

/-- Where the caller may read, the kernel reads the same byte. -/
theorem Inv.readVirtual_of_callerByte (h : Inv L R safe k) {va : Nat} {c : UInt8}
    (hva : va < 2 ^ 32) (hc : k.callerByte va = some c) :
    k.store.mem.readVirtual kernelByte va = some c := by
  have hlow : va < 0xC0000000 := by
    by_contra hge
    rw [h.callerByte_kernel (by omega) hva] at hc
    cases hc
  have hpresent : ∀ e, userReadable e = true → present e = true := by
    intro e he
    simp only [userReadable, Bool.or_eq_true, beq_iff_eq] at he
    rw [present_eq]
    refine decide_eq_true ?_
    omega
  rw [callerByte, Memory.userByte, ← h.holding.cr3] at hc
  split at hc
  · rename_i hread
    rw [Memory.readVirtual, if_pos hlow, Memory.translate]
    simp only [hpresent _ hread.1, hpresent _ hread.2, if_true, Option.map_some]
    exact hc
  · cases hc

/-- The kernel reads past the memory of its caller exactly where the path runs out of it. -/
theorem Inv.reads_user_iff (h : Inv L R safe k) (kernelByte : Nat → Option UInt8) {ptr : Nat}
    (hptr : ptr < 2 ^ 32) :
    (∀ a ∈ copyUserReads (k.store.mem.readVirtual kernelByte) execPathMax ptr,
        k.callerByte a ≠ none) ↔ ¬ k.PathRunsOut ptr := by
  have hlt : ∀ i, u32 (ptr + i) < 2 ^ 32 := fun i => Nat.mod_lt _ (by norm_num)
  constructor
  · intro hreads hruns
    -- The first address that the caller may not read.
    obtain ⟨hi, hnone, hbefore⟩ := Nat.find_spec hruns
    refine hreads _ ((mem_copyUserReads_iff hptr).2 ⟨_, hi, rfl, fun j hj => ?_⟩) hnone
    have hnot := Nat.find_min hruns hj
    cases hc : k.callerByte (u32 (ptr + j)) with
    | none => exact absurd ⟨by omega, hc, fun j' hj' => hbefore j' (by omega)⟩ hnot
    | some c =>
        refine ⟨c, h.readVirtual_of_callerByte (hlt j) hc, ?_⟩
        rintro rfl
        exact hbefore j hj hc
  · intro hends a ha hnone
    obtain ⟨i, hi, rfl, hbefore⟩ := (mem_copyUserReads_iff hptr).1 ha
    refine hends ⟨i, hi, hnone, fun j hj hzero => ?_⟩
    obtain ⟨c, hc, hne⟩ := hbefore j hj
    rw [h.readVirtual_of_callerByte (hlt j) hzero] at hc
    cases hc
    exact hne rfl

/-- A null pointer is refused without a read. -/
theorem sysExec_null (k : Kernel) (kernelByte : Nat → Option UInt8) (hnull : frame.ebx = 0) :
    k.execReads kernelByte frame = [] ∧
      k.sysExec kernelByte frame = some (minusOne, k, frame) := by
  constructor
  · rw [execReads, if_pos hnull]
  · rw [Kernel.sysExec, copyUserString, if_pos (.inl hnull)]

/-- An exec keeps to the memory of its caller exactly when its pointer is null or its path
ends before that memory does. -/
theorem exec_reads_user_iff (hboot : kmain L B = some k₀) (hk : Reachable L k₀ k)
    (hebx : frame.ebx < 2 ^ 32) :
    ExecReadsUser k kernelByte frame ↔ frame.ebx = 0 ∨ ¬ k.PathRunsOut frame.ebx := by
  have hinv := (kmain_inv hboot).reachable hk
  by_cases hnull : frame.ebx = 0
  · obtain ⟨hreads, hrun⟩ := sysExec_null k kernelByte hnull
    refine iff_of_true ⟨?_, fun _ => ⟨k, frame, hrun⟩⟩ (.inl hnull)
    rw [hreads]
    exact fun a ha => absurd ha List.not_mem_nil
  · have hiff := hinv.reads_user_iff kernelByte hebx
    rw [← (if_neg hnull : k.execReads kernelByte frame = _)] at hiff
    constructor
    · exact fun hexec => .inr (hiff.1 hexec.reads)
    · rintro (hz | hends)
      · exact absurd hz hnull
      · exact ⟨hiff.2 hends, fun hruns => absurd hruns hends⟩

/-- A call of {lit}`exec` with its path at the bottom of the stack page. -/
def stackExec : SyscallFrame :=
  { sampleCall 2 with ebx := 0xBFFFF000 }

theorem exec_reads_user_iff_stack :
    ∃ k₀ k, kmain sampleLayout (sampleBoot 1 (by decide) .rr) = some k₀ ∧
      Reachable sampleLayout k₀ k ∧ ExecReadsUser k (fun _ => none) stackExec ∧
      0xBFFFF000 ∈ k.execReads (fun _ => none) stackExec := by
  obtain ⟨k₀, k, frame, d, hboot, -, -, hrun, hexecuted⟩ := sampleExec_runs
  have htrap : k₀.trap sampleLayout (.syscall sampleExec (samplePath 97)) =
      some (k, returned frame 0) :=
    trap_syscall (kmain_started hboot).idle (by decide) hrun
  have hk : Reachable sampleLayout k₀ k := .trap .boot htrap
  have hpdt : k.current.pdt = 4096 * d := by
    rw [hexecuted.pcb]
    rfl
  -- The new stack page is cleared, so the path ends where it begins.
  have hbyte : k.callerByte (u32 (stackExec.ebx + 0)) = some 0 := by
    rw [callerByte, hpdt]
    exact hexecuted.image.userByte_stack (by decide) (by decide)
  refine ⟨k₀, k, hboot, hk, (exec_reads_user_iff hboot hk (by decide)).2 (.inr ?_), ?_⟩
  · rintro ⟨i, -, hnone, hbefore⟩
    cases i with
    | zero =>
        rw [hbyte] at hnone
        cases hnone
    | succ i => exact hbefore 0 (by omega) hbyte
  · rw [execReads, if_neg (by decide)]
    exact List.mem_cons_self

/-- A path in the kernel image is read, and the module it names replaces the caller. -/
theorem exec_reads_kernel :
    ∃ k₀ k' frame', kmain sampleLayout (sampleBoot 1 (by decide) .rr) = some k₀ ∧
      k₀.sysExec (samplePath 97) sampleExec = some (0, k', frame') ∧
      ¬ ExecReadsUser k₀ (samplePath 97) sampleExec := by
  obtain ⟨k₀, k', frame', -, hboot, -, -, hrun, -⟩ := sampleExec_runs
  refine ⟨k₀, k', frame', hboot, hrun, fun hexec => ?_⟩
  have hread : 0xC0100000 ∈ k₀.execReads (samplePath 97) sampleExec := by
    rw [execReads, if_neg (by decide)]
    exact List.mem_cons_self
  exact hexec.reads _ hread ((kmain_inv hboot).callerByte_kernel (by norm_num) (by norm_num))

end UserPath

end Kernel

end SoKernel
