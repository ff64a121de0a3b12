import SoKernel.Kernel.State

/-!
# The table of boot modules

This module models {lit}`kernel/module_loader.c`: the table in which the kernel keeps
the ranges and command lines of the first modules, and the search by path that
{lit}`exec` makes.  A string is the list of its bytes before the terminator.
-/

namespace SoKernel

/-- An entry of the module list of the boot loader; the command line may be absent. -/
structure MultibootModule where
  modStart : Nat
  modEnd : Nat
  cmdline : Option (List UInt8)

/-- {lit}`MODULE_LOADER_MAX_MODULES`. -/
def moduleLoaderMaxModules : Nat :=
  8

/-- {lit}`MODULE_CMDLINE_MAX_LEN`. -/
def moduleCmdlineMaxLen : Nat :=
  63

/-- {lit}`copy_cmdline`. -/
def copyCmdline (src : Option (List UInt8)) : List UInt8 :=
  match src with
  | none => []
  | some text => (text.take moduleCmdlineMaxLen).takeWhile fun c => c ≠ 0

/-- {lit}`module_loader_set_modules`. -/
def moduleLoaderSetModules (mods : List MultibootModule) : List LoadedModule :=
  (mods.take moduleLoaderMaxModules).map fun mod =>
    ⟨mod.modStart, mod.modEnd, copyCmdline mod.cmdline⟩

/-- {lit}`path_matches_cmdline`: the path is the first word of the command line. -/
def pathMatchesCmdline : List UInt8 → List UInt8 → Bool
  | p :: path, c :: cmdline => c != 0x20 && p == c && pathMatchesCmdline path cmdline
  | _ :: _, [] => false
  | [], c :: _ => c == 0x20
  | [], [] => true

/-- {lit}`module_loader_find_module_by_path`. -/
def moduleLoaderFindModuleByPath (modules : List LoadedModule) (path : List UInt8) :
    Option (Nat × Nat) :=
  (modules.find? fun mod => pathMatchesCmdline path mod.cmdline).map fun mod =>
    (mod.modStart, mod.modEnd)

/-- A range that the search finds is the range of a module of the list. -/
theorem moduleLoaderFind_mem {mods : List MultibootModule} {path : List UInt8} {a b : Nat}
    (h : moduleLoaderFindModuleByPath (moduleLoaderSetModules mods) path = some (a, b)) :
    ∃ mod ∈ mods, mod.modStart = a ∧ mod.modEnd = b := by
  unfold moduleLoaderFindModuleByPath at h
  rw [Option.map_eq_some_iff] at h
  obtain ⟨entry, hfind, hrange⟩ := h
  have hmem := List.mem_of_find?_eq_some hfind
  unfold moduleLoaderSetModules at hmem
  obtain ⟨mod, hmod, rfl⟩ := List.mem_map.1 hmem
  refine ⟨mod, List.mem_of_mem_take hmod, ?_⟩
  simpa using hrange

end SoKernel
