import SoKernel.Syscall.Dispatcher

/-!
# The module that an exec finds

{lit}`sys_exec` copies the path of its caller into a buffer of 64 bytes and compares it with
the command lines in the table of modules, which were copied into buffers of 64 bytes at
boot.  Three loops make the comparison: the two copies cut a longer string to 63 bytes, and
{lit}`path_matches_cmdline` stops at the first space of the command line.

Main results:

- Theorem {lit}`pathMatchesCmdline_iff`: the comparison is equality with the first word.
- Theorem {lit}`StringAt.copyUserString`: what the copy of a string is.
- Theorem {lit}`exec_resolves_module`: which module an exec finds.
-/

namespace SoKernel

/-- The text of a command line, the bytes before its terminator; an absent one is empty. -/
def MultibootModule.text (mod : MultibootModule) : List UInt8 :=
  (mod.cmdline.getD []).takeWhile fun c => c ≠ 0

/-- The name of a module: its command line cut at the first space. -/
def MultibootModule.name (mod : MultibootModule) : List UInt8 :=
  mod.text.takeWhile fun c => c ≠ 0x20

/-- The string {lit}`text` with its terminator lies at {lit}`ptr`. -/
structure StringAt (read : Nat → Option UInt8) (ptr : Nat) (text : List UInt8) : Prop where
  bytes : ∀ i (hi : i < text.length), read (u32 (ptr + i)) = some text[i]
  terminated : read (u32 (ptr + text.length)) = some 0
  nonzero : 0 ∉ text

/-- The lookup of {lit}`sys_exec`: the range of a module, or an error, or a fault. -/
def execLookup (modules : List LoadedModule) (read : Nat → Option UInt8) (ptr : Nat) :
    Option (Option (Nat × Nat)) :=
  (copyUserString read ptr execPathMax).map fun path =>
    path.bind (moduleLoaderFindModuleByPath modules)

/-- The entry of the table at which the loop of
{lit}`module_loader_find_module_by_path` stops. -/
def moduleIndex (modules : List LoadedModule) (path : List UInt8) : Option Nat :=
  modules.findIdx? fun mod => pathMatchesCmdline path mod.cmdline

/-- The entry of the table that {lit}`sys_exec` finds. -/
def execIndex (modules : List LoadedModule) (read : Nat → Option UInt8) (ptr : Nat) :
    Option (Option Nat) :=
  (copyUserString read ptr execPathMax).map fun path => path.bind (moduleIndex modules)

/-- The module number {lit}`i` is the first one whose name is as asked. -/
def FirstNamed (mods : List MultibootModule) (P : List UInt8 → Prop) (i : Nat) : Prop :=
  IsLeast {i | ∃ mod, mods[i]? = some mod ∧ P mod.name} i

/-! ## The three loops -/

/-- A path matches a command line when it is its first word. -/
theorem pathMatchesCmdline_iff {path cmdline : List UInt8} :
    pathMatchesCmdline path cmdline = true ↔ path = cmdline.takeWhile fun c => c ≠ 0x20 := by
  induction path generalizing cmdline with
  | nil =>
      cases cmdline with
      | nil => simp [pathMatchesCmdline]
      | cons c cmdline =>
          by_cases hc : c = 0x20
          · simp [pathMatchesCmdline, hc]
          · simp [pathMatchesCmdline, hc]
  | cons p path ih =>
      cases cmdline with
      | nil => simp [pathMatchesCmdline]
      | cons c cmdline =>
          by_cases hc : c = 0x20
          · simp [pathMatchesCmdline, hc]
          · have ih := @ih cmdline
            simp only [ne_eq, decide_not] at ih
            simp [pathMatchesCmdline, hc, ih]

/-- The first word of a copied command line is the name of the module, cut. -/
theorem copyCmdline_word (mod : MultibootModule) :
    (copyCmdline mod.cmdline).takeWhile (fun c => c ≠ 0x20) =
      mod.name.take moduleCmdlineMaxLen := by
  unfold MultibootModule.name MultibootModule.text
  cases mod.cmdline with
  | none => rfl
  | some text =>
      rw [copyCmdline, ← List.take_takeWhile, ← List.take_takeWhile]
      rfl

section Strings

variable {read : Nat → Option UInt8} {ptr : Nat} {text : List UInt8}

theorem StringAt.tail {c : UInt8} (h : StringAt read ptr (c :: text)) :
    StringAt read (u32 (ptr + 1)) text := by
  have hnext : ∀ i, u32 (u32 (ptr + 1) + i) = u32 (ptr + (i + 1)) := by
    intro i
    unfold u32
    omega
  refine ⟨fun i hi => ?_, ?_, fun hz => h.nonzero (List.mem_cons_of_mem _ hz)⟩
  · have hbyte := h.bytes (i + 1) (by simpa using hi)
    rw [hnext]
    exact hbyte
  · have hzero := h.terminated
    rw [hnext]
    exact hzero

/-- The loop copies the string up to its limit and does not fault. -/
theorem StringAt.copyUserBytes (h : StringAt read ptr text) (hptr : ptr < 2 ^ 32) (n : Nat) :
    copyUserBytes read n ptr = some (text.take n) := by
  have hself : u32 (ptr + 0) = ptr := Nat.mod_eq_of_lt hptr
  induction text generalizing ptr n with
  | nil =>
      cases n with
      | zero => rfl
      | succ n =>
          have hzero := h.terminated
          rw [List.length_nil, hself] at hzero
          simp [SoKernel.copyUserBytes, hzero]
  | cons c text ih =>
      cases n with
      | zero => rfl
      | succ n =>
          have hc : c ≠ 0 := fun hc => h.nonzero (by simp [hc])
          have hbyte := h.bytes 0 (by simp)
          have hnext : u32 (ptr + 1) < 2 ^ 32 := Nat.mod_lt _ (by norm_num)
          rw [hself] at hbyte
          simp only [SoKernel.copyUserBytes, hbyte, List.getElem_cons_zero, if_neg hc]
          rw [ih h.tail hnext n (Nat.mod_eq_of_lt hnext), List.take_succ_cons]
          rfl

theorem StringAt.copyUserString (h : StringAt read ptr text) (hptr : ptr < 2 ^ 32) :
    copyUserString read ptr execPathMax = some (if ptr = 0 then none else some (text.take 63)) := by
  unfold SoKernel.copyUserString
  by_cases hnull : ptr = 0
  · rw [if_pos (.inl hnull), if_pos hnull]
  · rw [if_neg (by simp [hnull, execPathMax]), if_neg hnull, h.copyUserBytes hptr, Option.map_some,
      List.take_take]
    rfl

end Strings

/-! ## The search -/

/-- The range that the search returns is the one of the entry at which it stops. -/
theorem moduleLoaderFind_eq_index (modules : List LoadedModule) (path : List UInt8) :
    moduleLoaderFindModuleByPath modules path =
      (moduleIndex modules path).bind fun i =>
        modules[i]?.map fun mod => (mod.modStart, mod.modEnd) := by
  unfold moduleLoaderFindModuleByPath moduleIndex
  induction modules with
  | nil => rfl
  | cons mod modules ih =>
      rw [List.find?_cons, List.findIdx?_cons]
      cases hmatch : pathMatchesCmdline path mod.cmdline with
      | true => simp
      | false =>
          simp only [ih, Bool.false_eq_true, if_false]
          cases List.findIdx? (fun mod => pathMatchesCmdline path mod.cmdline) modules with
          | none => rfl
          | some i => simp

/-- The table of at most eight modules has them all. -/
theorem getElem?_moduleLoaderSetModules {mods : List MultibootModule} (h : mods.length ≤ 8)
    (i : Nat) : (moduleLoaderSetModules mods)[i]? =
      mods[i]?.map fun mod => ⟨mod.modStart, mod.modEnd, copyCmdline mod.cmdline⟩ := by
  rw [moduleLoaderSetModules, moduleLoaderMaxModules, List.take_of_length_le h,
    List.getElem?_map]

/-- The search stops at the first module whose name is the path, up to 63 bytes. -/
theorem moduleIndex_eq_some_iff {mods : List MultibootModule} (h : mods.length ≤ 8)
    (path : List UInt8) (i : Nat) :
    moduleIndex (moduleLoaderSetModules mods) (path.take 63) = some i ↔
      FirstNamed mods (fun name => name.take 63 = path.take 63) i := by
  have hentry : ∀ j (hj : j < (moduleLoaderSetModules mods).length),
      pathMatchesCmdline (path.take 63) (moduleLoaderSetModules mods)[j].cmdline = true ↔
        ∃ mod, mods[j]? = some mod ∧ mod.name.take 63 = path.take 63 := by
    intro j hj
    have hget := getElem?_moduleLoaderSetModules h j
    rw [List.getElem?_eq_getElem hj] at hget
    obtain ⟨mod, hmod, heq⟩ := Option.map_eq_some_iff.1 hget.symm
    have hword := copyCmdline_word mod
    rw [moduleCmdlineMaxLen] at hword
    rw [← heq, pathMatchesCmdline_iff, hword]
    constructor
    · intro hpath
      exact ⟨mod, hmod, hpath.symm⟩
    · rintro ⟨mod', hmod', hname⟩
      rw [hmod, Option.some.injEq] at hmod'
      subst hmod'
      exact hname.symm
  have hlength : (moduleLoaderSetModules mods).length = mods.length := by
    rw [moduleLoaderSetModules, moduleLoaderMaxModules, List.take_of_length_le h, List.length_map]
  unfold moduleIndex FirstNamed
  rw [List.findIdx?_eq_some_iff_getElem]
  constructor
  · rintro ⟨hi, hmatch, hbefore⟩
    refine ⟨(hentry i hi).1 hmatch, fun j hj => ?_⟩
    by_contra hlt
    exact hbefore j (by omega) ((hentry j (by omega)).2 hj)
  · rintro ⟨⟨mod, hmod, hname⟩, hleast⟩
    obtain ⟨hi, -⟩ := List.getElem?_eq_some_iff.1 hmod
    rw [← hlength] at hi
    refine ⟨hi, (hentry i hi).2 ⟨mod, hmod, hname⟩, fun j hj hmatch => ?_⟩
    have hle : i ≤ j := hleast ((hentry j (by omega)).1 hmatch)
    omega

/-- A string that agrees with a short one on its first 63 bytes is the short one. -/
theorem take_eq_take_iff {name path : List UInt8} (h : path.length < 63) :
    name.take 63 = path.take 63 ↔ name = path := by
  constructor
  · intro heq
    rw [List.take_of_length_le (show path.length ≤ 63 by omega)] at heq
    have hlength := congrArg List.length heq
    rw [List.length_take] at hlength
    rw [← heq, List.take_of_length_le (by omega)]
  · rintro rfl
    rfl

/-- An exec finds the first module whose name is its path, up to 63 bytes; a path that is
shorter than that is compared as a whole.  The null pointer finds nothing. -/
theorem exec_resolves_module {mods : List MultibootModule} {read : Nat → Option UInt8} {ptr : Nat}
    {path : List UInt8} (hmods : mods.length ≤ 8) (hptr : ptr < 2 ^ 32)
    (hpath : StringAt read ptr path) :
    (∀ i, execIndex (moduleLoaderSetModules mods) read ptr = some (some i) ↔
        ptr ≠ 0 ∧ FirstNamed mods (fun name => name.take 63 = path.take 63) i) ∧
      execIndex (moduleLoaderSetModules mods) read ptr ≠ none ∧
      execLookup (moduleLoaderSetModules mods) read ptr =
        (execIndex (moduleLoaderSetModules mods) read ptr).map (fun found =>
          found.bind fun i => mods[i]?.map fun mod => (mod.modStart, mod.modEnd)) ∧
      (path.length < 63 → ∀ i,
        FirstNamed mods (fun name => name.take 63 = path.take 63) i ↔
          FirstNamed mods (fun name => name = path) i) := by
  have hcopy := hpath.copyUserString hptr
  unfold execIndex execLookup
  rw [hcopy]
  refine ⟨fun i => ?_, by simp, ?_, fun hshort i => ?_⟩
  · by_cases hnull : ptr = 0
    · simp [hnull]
    · rw [if_neg hnull, Option.map_some, Option.some.injEq, Option.bind_some,
        moduleIndex_eq_some_iff hmods]
      simp [hnull]
  · by_cases hnull : ptr = 0
    · simp [hnull]
    · simp only [if_neg hnull, Option.map_some, Option.bind_some, Option.some.injEq,
        moduleLoaderFind_eq_index, getElem?_moduleLoaderSetModules hmods, Option.map_map]
      rfl
  · unfold FirstNamed
    simp only [take_eq_take_iff hshort]

/-- The string {lit}`text` at address 4096, zeros behind it. -/
def textAt (text : List UInt8) : Nat → Option UInt8 := fun a =>
  some (text.getD (a - 4096) 0)

theorem stringAt_textAt {text : List UInt8} (hlength : text.length < 2 ^ 31) (hz : 0 ∉ text) :
    StringAt (textAt text) 4096 text := by
  have haddr : ∀ i, i ≤ text.length → u32 (4096 + i) - 4096 = i := by
    intro i hi
    unfold u32
    omega
  refine ⟨fun i hi => ?_, ?_, hz⟩
  · rw [textAt, haddr i hi.le, List.getD_eq_getElem _ _ hi]
  · rw [textAt, haddr _ le_rfl, List.getD_eq_default _ _ le_rfl]

/-- Two modules with the command lines "a 1" and "a", and the path "a". -/
theorem exec_resolves_first_of_two :
    execLookup (moduleLoaderSetModules [⟨4096, 8192, some [97, 32, 49]⟩, ⟨8192, 9000, some [97]⟩])
      (textAt [97]) 4096 = some (some (4096, 8192)) := by
  have hpath : StringAt (textAt [97]) 4096 [97] := stringAt_textAt (by decide) (by decide)
  have hmods : ([⟨4096, 8192, some [97, 32, 49]⟩, ⟨8192, 9000, some [97]⟩] :
      List MultibootModule).length ≤ 8 := by decide
  obtain ⟨hindex, -, hlookup, -⟩ := exec_resolves_module hmods (by decide) hpath
  rw [hlookup, (hindex 0).2 ⟨by decide, ⟨⟨_, rfl, rfl⟩, fun _ _ => Nat.zero_le _⟩⟩]
  rfl

/-- A module whose name is 64 letters, and a path that differs in the last one. -/
theorem exec_resolves_other_name :
    ∃ (mods : List MultibootModule) (path : List UInt8), mods.length ≤ 8 ∧
      StringAt (textAt path) 4096 path ∧
      execIndex (moduleLoaderSetModules mods) (textAt path) 4096 = some (some 0) ∧
      ∀ i, ¬ FirstNamed mods (fun name => name = path) i := by
  refine ⟨[⟨4096, 8192, some (List.replicate 64 97)⟩], List.replicate 63 97 ++ [98], by decide,
    stringAt_textAt (by decide) (by decide), by decide, ?_⟩
  rintro i ⟨⟨mod, hmod, hname⟩, -⟩
  cases i with
  | zero =>
      rw [List.getElem?_cons_zero, Option.some.injEq] at hmod
      subst hmod
      exact absurd hname (by decide)
  | succ i => simp at hmod

namespace Kernel

/-- {lit}`sys_exec` goes by the result of the lookup. -/
theorem sysExec_eq_lookup (k : Kernel) (kernelByte : Nat → Option UInt8) (frame : SyscallFrame) :
    k.sysExec kernelByte frame =
      (execLookup k.modules (k.store.mem.readVirtual kernelByte) frame.ebx).map fun found =>
        match found with
        | none => (minusOne, k, frame)
        | some (modStart, modEnd) => k.execModule frame modStart modEnd := by
  unfold sysExec execLookup
  cases copyUserString (k.store.mem.readVirtual kernelByte) frame.ebx execPathMax with
  | none => rfl
  | some path =>
      cases path with
      | none => rfl
      | some path =>
          simp only [Option.map_some, Option.bind_some]
          cases moduleLoaderFindModuleByPath k.modules path with
          | none => rfl
          | some range => rfl

end Kernel

end SoKernel
