import SoKernel.Kernel.Events
import SoKernel.Kernel.Isolation
import SoKernel.Library.PrivateMemory
import SoKernel.Process.StaleMemory

/-!
# Every process has a memory of its own

The pages of a process can be reached through its own directory only, and the kernel
writes frames that are free or that their owner gives up.  Seen through the directories,
the kernel is therefore the machine in which each process has a private memory: a fork
copies one, an exec exchanges one for the image of a module as the boot loader left it, an
exit ends one, a user write changes one byte of one, and nothing else touches any.

Main results:

- Theorem {lit}`runs_refine_private_memories`: every run is a trace of the private memories.
- Theorem {lit}`memory_depends_on_own_changes`: what a process finds in its memory depends on
  what it has done itself, not on the schedule or on other processes.
-/

namespace SoKernel

/-- Whether a trap is a call of {lit}`sys_exec`. -/
def Trap.IsExec : Trap → Prop
  | .timer _ => False
  | .syscall frame _ => frame.eax = 2

namespace Memory

section Views

variable {m m' m₀ : Memory} {d va a size : Nat} {phys : ByteMemory}

/-- The entries for a page are kept when the frames of the space are. -/
theorem entryKept_of_slots (h : ∀ s f, m.slots d s = some f → ByteMemory.BlockEq m.phys phys f)
    {i j : Nat} (hi : i < 768) (hj : j < 1024) : EntryKept m.phys phys d i j := by
  have hpde := ((h .dir d rfl).word (show i < 1024 by omega)).symm
  refine ⟨hpde, ?_, fun hodd => ?_⟩
  · unfold pte
    rw [hpde]
    split
    · rename_i hodd
      have htable := h (.table i) _ ((slots_table m d hi).trans (entryFrame_of_odd hodd))
      exact (htable.word hj).symm
    · rfl
  · exact h (.page i j) _ ((slots_page m d hi hj).trans (entryFrame_of_odd hodd))

/-- User mode reads the same through entries that are kept. -/
theorem userByte_of_entryKept
    (h : EntryKept m.phys m'.phys d (va / 2 ^ 22) (va / 2 ^ 12 % 1024)) :
    m'.userByte (4096 * d) va = m.userByte (4096 * d) va := by
  rw [userByte_pte, userByte_pte, h.pde, h.pte]
  by_cases hread : userReadable (pte m.phys d (va / 2 ^ 22) (va / 2 ^ 12 % 1024))
  · have hbytes := h.bytes (odd_of_userReadable hread)
    rw [hbytes _ (by omega)]
  · rw [if_neg fun hboth => hread hboth.2, if_neg fun hboth => hread hboth.2]

/-- The kernel's part of a space is closed to user mode. -/
theorem Space.userByte_high (h : Space m d) (hpde : m.pageDirectory 768 % 8 = 3)
    (hlo : 0xC0000000 ≤ va) (hva : va < 2 ^ 32) : m.userByte (4096 * d) va = none :=
  Memory.userByte_high (by rw [h.kernel]; exact hpde) h.high hlo hva

theorem userReadable_of_userWritable {e : Nat} (h : userWritable e) : userReadable e := by
  simp only [userWritable, beq_iff_eq] at h
  simp [userReadable, h]

/-- A byte that user mode writes through the entries of its page is the only one that it then
reads differently. -/
theorem Space.userByte_store (h : Space m d) (hfilled : ∀ s, m.slots d s ≠ some 0)
    (hpde : m.pageDirectory 768 % 8 = 3) {byte : UInt8} {va' : Nat} (hva : va < 2 ^ 32)
    (hva' : va' < 2 ^ 32) (hdir : userWritable (m.phys.word d (va / 2 ^ 22)))
    (htable : userWritable (pte m.phys d (va / 2 ^ 22) (va / 2 ^ 12 % 1024)))
    (hphys : m'.phys = Function.update m.phys
      (4096 * (pte m.phys d (va / 2 ^ 22) (va / 2 ^ 12 % 1024) / 4096) + va % 4096) byte) :
    m'.userByte (4096 * d) va' = if va' = va then some byte else m.userByte (4096 * d) va' := by
  have hlow : va < 0xC0000000 := by
    by_contra hge
    have hnone := h.userByte_high hpde (by omega) hva
    rw [userByte_pte, if_pos ⟨userReadable_of_userWritable hdir,
      userReadable_of_userWritable htable⟩] at hnone
    cases hnone
  have hpage := slots_page m d (show va / 2 ^ 22 < 768 by omega)
    (Nat.mod_lt (va / 2 ^ 12) (show 0 < 1024 by norm_num))
  rw [entryFrame_of_odd (odd_of_userReadable (userReadable_of_userWritable htable))] at hpage
  generalize hframe : pte m.phys d (va / 2 ^ 22) (va / 2 ^ 12 % 1024) / 4096 = f at hpage hphys
  have hf : f ≠ 0 := by
    rintro rfl
    exact hfilled _ hpage
  have hkept : ∀ g, g ≠ f → ByteMemory.BlockEq m.phys m'.phys g := by
    intro g hg o ho
    rw [hphys, Function.update_of_ne (by omega)]
  -- The page is in one place of the space, so the directory and the tables are other frames.
  have hplace : ∀ s, m.slots d s = some f → s = .page (va / 2 ^ 22) (va / 2 ^ 12 % 1024) :=
    fun s hs => h.separate _ _ _ hf hs hpage
  have hd : ByteMemory.BlockEq m.phys m'.phys d := hkept d fun heq => by
    have hslot := hplace .dir (congrArg some heq)
    cases hslot
  by_cases hhigh : 0xC0000000 ≤ va'
  · have hnone : m'.userByte (4096 * d) va' = none := by
      refine Memory.userByte_high ?_ (fun i hlo hhi => ?_) hhigh hva'
      · rw [← hd.word (by norm_num), h.kernel]
        exact hpde
      · rw [← hd.word hhi, h.high i hlo hhi]
    rw [hnone, if_neg (by omega), h.userByte_high hpde hhigh hva']
  have hi' : va' / 2 ^ 22 < 768 := by omega
  have hj' := Nat.mod_lt (va' / 2 ^ 12) (show 0 < 1024 by norm_num)
  have hpde' := (hd.word (show va' / 2 ^ 22 < 1024 by omega)).symm
  have hpte' : pte m'.phys d (va' / 2 ^ 22) (va' / 2 ^ 12 % 1024) =
      pte m.phys d (va' / 2 ^ 22) (va' / 2 ^ 12 % 1024) := by
    unfold pte
    rw [hpde']
    split
    · rename_i hodd
      refine ((hkept _ fun heq => ?_).word hj').symm
      have hslot := hplace (.table (va' / 2 ^ 22))
        ((slots_table m d hi').trans ((entryFrame_of_odd hodd).trans (congrArg some heq)))
      cases hslot
    · rfl
  rw [userByte_pte, userByte_pte, hpde', hpte']
  by_cases hsame : va' = va
  · rw [hsame, if_pos ⟨userReadable_of_userWritable hdir, userReadable_of_userWritable htable⟩,
      hframe, hphys, Function.update_self, if_pos rfl]
  rw [if_neg hsame]
  by_cases hread : userReadable (pte m.phys d (va' / 2 ^ 22) (va' / 2 ^ 12 % 1024))
  · have hpage' := slots_page m d hi' hj'
    rw [entryFrame_of_odd (odd_of_userReadable hread)] at hpage'
    generalize pte m.phys d (va' / 2 ^ 22) (va' / 2 ^ 12 % 1024) / 4096 = f' at hpage'
    have hne : 4096 * f' + va' % 4096 ≠ 4096 * f + va % 4096 := by
      intro heq
      have hsameFrame : f' = f := by omega
      have hslot := hplace _ (hsameFrame ▸ hpage')
      injection hslot with hdirs htables
      omega
    rw [hphys, Function.update_of_ne hne]
  · rw [if_neg fun hboth => hread hboth.2, if_neg fun hboth => hread hboth.2]

/-- What user mode reads in a space that is the image of a module. -/
theorem ImageOf.view_of_space (h : ImageOf m₀ a size m.phys d) (hspace : Space m d)
    (hpde : m.pageDirectory 768 % 8 = 3) (hregion : Region m₀ a size) (hva : va < 2 ^ 32) :
    m.userByte (4096 * d) va = imageView m₀.phys a size va := by
  have hpages := h.pages
  unfold imageView
  by_cases hmod : va < 4096 * imagePages size
  · rw [if_pos hmod, h.userByte hregion hmod]
  rw [if_neg hmod]
  by_cases hstack : 0xBFFFF000 ≤ va ∧ va < 0xC0000000
  · rw [if_pos hstack, h.userByte_stack hstack.1 hstack.2]
  rw [if_neg hstack]
  by_cases hhigh : 0xC0000000 ≤ va
  · exact hspace.userByte_high hpde hhigh hva
  · rw [userByte_pte, if_neg]
    rintro ⟨-, hread⟩
    refine h.others (va / 2 ^ 22) (va / 2 ^ 12 % 1024) (by omega) (by omega) (by omega) (by omega) ?_
    exact odd_of_userReadable hread

/-- An image depends on the bytes of its module only. -/
theorem imageView_congr {src src' : ByteMemory} (h : ∀ x, a ≤ x → x < a + size → src x = src' x) :
    imageView src a size = imageView src' a size := by
  funext v
  unfold imageView
  by_cases hv : v < size
  · rw [if_pos hv, if_pos hv, h _ (by omega) (by omega)]
  · rw [if_neg hv, if_neg hv]

end Views

end Memory

namespace Kernel

/-- The memory of a process, as user mode reads it. -/
def userMemory (k : Kernel) (p : Nat) : Nat → Option UInt8 := fun va =>
  if va < 2 ^ 32 then k.store.mem.userByte (k.pcbs p).pdt va else none

/-- The memories of the processes. -/
def memories (k : Kernel) : Memories Nat Nat UInt8 := fun p =>
  if p ∈ k.members then some (k.userMemory p) else none

/-- What the current process does to the memories by an event; {lit}`src` are the modules
as the boot loader left them. -/
inductive Acts (src : ByteMemory) (k : Kernel) :
    Event → Kernel → MemoryAction Nat Nat UInt8 → Prop
  | store {va : Nat} {byte : UInt8} {k' : Kernel} :
      Acts src k (.write va byte) k' (.store va byte)
  | clone {t : Trap} {out : ProcessContext} {k' : Kernel} {child : Nat} (hfork : t.IsFork)
      (hmembers : k'.members = k.members ++ [child]) : Acts src k (.trap t out) k' (.clone child)
  | load {frame : SyscallFrame} {kernelByte : Nat → Option UInt8} {out : ProcessContext}
      {k' : Kernel} {path : List UInt8} {modStart modEnd : Nat} (hnumber : frame.eax = 2)
      (hout : out.eax = 0)
      (hpath : copyUserString (k.store.mem.readVirtual kernelByte) frame.ebx execPathMax =
        some (some path))
      (hfound : moduleLoaderFindModuleByPath k.modules path = some (modStart, modEnd)) :
      Acts src k (.trap (.syscall frame kernelByte) out) k'
        (.load (Memory.imageView src modStart (modEnd - modStart)))
  | leave {t : Trap} {out : ProcessContext} {k' : Kernel} (hexit : t.IsExit)
      (hidle : k'.idle = false) : Acts src k (.trap t out) k' .leave
  | pass {t : Trap} {out : ProcessContext} {k' : Kernel}
      (hfork : t.IsFork → k'.members = k.members) (hexec : t.IsExec → out.eax ≠ 0)
      (hexit : t.IsExit → k'.idle = true) : Acts src k (.trap t out) k' .pass

/-- A step of the kernel, with the action that it is for the memories. -/
structure Acted (L : Layout) (safe : Prop) (src : ByteMemory) (k : Kernel)
    (a : Event × Nat × MemoryAction Nat Nat UInt8) (k' : Kernel) : Prop where
  step : k.Step L safe a.1 k'
  actor : a.2.1 = k.sched.currentPcb
  acts : Acts src k a.1 k' a.2.2

/-- The modules that exec can load lie in frames that the kernel keeps, and are as the boot
loader left them. -/
def Pristine (R : Nat → Prop) (src : ByteMemory) (k : Kernel) : Prop :=
  ∀ path a b, moduleLoaderFindModuleByPath k.modules path = some (a, b) →
    b ≤ 2 ^ 32 ∧ ∀ x, a ≤ x → x < b → R (x / 4096) ∧ k.store.mem.phys x = src x

section Memories

variable {L : Layout} {R : Nat → Prop} {safe : Prop} {B : BootInfo} {k k₀ k' : Kernel}
  {src : ByteMemory}

/-! ## Memories that are kept -/

/-- A process that keeps its directory and the contents of its frames keeps its memory. -/
theorem Inv.userMemory_kept (h : Inv L R safe k) (h' : Inv L R safe k') {p : Nat}
    (hp : p ∈ k.members) (hp' : p ∈ k'.members) (hpdt : (k'.pcbs p).pdt = (k.pcbs p).pdt)
    (hframes : ∀ s f, k.store.mem.slots (k.dirOf p) s = some f →
      ByteMemory.BlockEq k.store.mem.phys k'.store.mem.phys f) :
    k'.userMemory p = k.userMemory p := by
  have hspaces := h.holding.store.spaces
  have hspaces' := h'.holding.store.spaces
  have hdir' : k'.dirOf p = k.dirOf p := by rw [dirOf, hpdt, dirOf]
  funext va
  unfold userMemory
  by_cases hva : va < 2 ^ 32
  · rw [if_pos hva, if_pos hva, hpdt, h.aligned p hp]
    by_cases hhigh : 0xC0000000 ≤ va
    · rw [(hspaces.space _ (List.mem_map_of_mem hp)).userByte_high hspaces.pde.2 hhigh hva,
        ← hdir', (hspaces'.space _ (List.mem_map_of_mem hp')).userByte_high hspaces'.pde.2 hhigh hva]
    · exact Memory.userByte_of_entryKept
        (Memory.entryKept_of_slots hframes (by omega) (by omega))
  · rw [if_neg hva, if_neg hva]

/-- What stands in a place of an address space is not free. -/
theorem Inv.slot_not_free (h : Inv L R safe k) {p : Nat} (hp : p ∈ k.members) {s : Slot} {f : Nat}
    (hs : k.store.mem.slots (k.dirOf p) s = some f) : ¬ k.store.mem.pfa.Free f := by
  refine h.holding.store.spaces.not_free (List.mem_map_of_mem hp) ?_
  by_cases hz : f = 0
  · exact .inr hz
  · exact .inl ⟨hz, s, hs⟩

/-- The directory of one process is in no place of another. -/
theorem Inv.slot_ne_dir (h : Inv L R safe k) {p q : Nat} (hp : p ∈ k.members) (hq : q ∈ k.members)
    (hne : p ≠ q) {s : Slot} {f : Nat} (hs : k.store.mem.slots (k.dirOf p) s = some f) :
    f ≠ k.dirOf q := by
  rintro rfl
  have hspaces := h.holding.store.spaces
  have hdir : k.dirOf q ∈ k.allDirs := List.mem_map_of_mem hq
  have howns : Owns (k.store.mem.slots (k.dirOf p)) (k.dirOf q) :=
    ⟨(hspaces.space _ hdir).dir_ne, s, hs⟩
  exact h.apart hp hq hne howns (hspaces.dir_owned hdir)

/-- A step that keeps the processes and the contents of all frames in use keeps the memories. -/
theorem Inv.memories_kept (h : Inv L R safe k) (h' : Inv L R safe k')
    (hmembers : k'.members.Perm k.members)
    (hpdt : ∀ p ∈ k.members, (k'.pcbs p).pdt = (k.pcbs p).pdt)
    (hphys : ∀ f, ¬ k.store.mem.pfa.Free f →
      ByteMemory.BlockEq k.store.mem.phys k'.store.mem.phys f) : k'.memories = k.memories := by
  funext p
  unfold memories
  by_cases hp : p ∈ k.members
  · have hp' := hmembers.mem_iff.2 hp
    rw [if_pos hp, if_pos hp', h.userMemory_kept h' hp hp' (hpdt p hp) fun s f hs =>
      hphys f (h.slot_not_free hp hs)]
  · rw [if_neg hp, if_neg fun hp' => hp (hmembers.mem_iff.1 hp')]

/-- What a step does to the memories of the processes other than the current one. -/
theorem Inv.others_kept (h : Inv L R safe k) (h' : Inv L R safe k') {p : Nat} (hp : p ∈ k.members)
    (hp' : p ∈ k'.members) (hne : p ≠ k.sched.currentPcb)
    (hpdt : (k'.pcbs p).pdt = (k.pcbs p).pdt)
    (hphys : ∀ f, ¬ k.store.mem.pfa.Free f → f ≠ k.dirOf k.sched.currentPcb →
      ByteMemory.BlockEq k.store.mem.phys k'.store.mem.phys f) :
    k'.userMemory p = k.userMemory p := by
  refine h.userMemory_kept h' hp hp' hpdt fun s f hs => ?_
  exact hphys f (h.slot_not_free hp hs) (h.slot_ne_dir hp k.current_mem hne hs)

/-- A scheduling call leaves the memories alone. -/
theorem Inv.schedule_memories (h : Inv L R safe k) (c : ProcessContext) (id : StatContext) :
    (k.schedulerScheduleFromContext c true id).2.1.memories = k.memories ∧
      (k.schedulerScheduleFromContext c true id).2.1.store.mem.phys = k.store.mem.phys := by
  have hinv := h.schedule c id
  have hr := h.rescheduled c true id
  have hmembers := h.schedule_members c id
  obtain ⟨code, k', out, hrun, -, hcases⟩ := schedule_spec h.zero_notMem h.holding.cr3 c true id
  rw [hrun] at hinv hr hmembers ⊢
  have hphys : k'.store.mem.phys = k.store.mem.phys := by
    rcases hcases with ⟨-, hstore, -⟩ | ⟨-, hstore, -⟩
    · rw [hstore]
    · rw [hstore]
      rfl
  refine ⟨h.memories_kept hinv hmembers (fun p _ => (hr.pcbs p).1) fun f _ => ?_, hphys⟩
  simp only [hphys]
  exact ByteMemory.BlockEq.refl _ _

/-! ## Actions -/

/-- A process that lives has a memory. -/
theorem memories_member {p : Nat} (hp : p ∈ k.members) : k.memories p = some (k.userMemory p) :=
  if_pos hp

theorem memories_current : k.memories k.sched.currentPcb = some (k.userMemory k.sched.currentPcb) :=
  memories_member k.current_mem

/-- The child of a fork has a copy of the memory of its parent. -/
theorem Inv.clone_memories (h : Inv L R safe k) (h' : Inv L R safe k') {frame : SyscallFrame}
    {child d base : Nat} (hf : Forked k frame k' child d base) :
    Memories.Step k.memories (k.sched.currentPcb, .clone child) k'.memories := by
  have hmembers := hf.members
  have hfresh : child ∉ k.members := fun hc => hf.fresh (mem_holders hc)
  have hnew : child ∈ k'.members := by
    rw [hmembers]
    exact List.mem_append_right _ (List.mem_singleton_self child)
  have hspace : Memory.Space k'.store.mem d := by
    have hspace := h'.holding.store.spaces.space _ (List.mem_map_of_mem (f := k'.dirOf) hnew)
    rw [dirOf, hf.pcb, show (k.forkedPcb frame d base).pdt = 4096 * d from rfl,
      Nat.mul_div_cancel_left _ (by norm_num)] at hspace
    exact hspace
  have hparent := h.aligned _ k.current_mem
  -- The copy reads as the original, also in the kernel's part.
  have hcopy : k'.userMemory child = k.userMemory k.sched.currentPcb := by
    funext va
    unfold userMemory
    by_cases hva : va < 2 ^ 32
    · rw [if_pos hva, if_pos hva, hf.pcb, hparent]
      change k'.store.mem.userByte (4096 * d) va = _
      by_cases hhigh : 0xC0000000 ≤ va
      · rw [hspace.userByte_high h'.holding.store.spaces.pde.2 hhigh hva,
          (h.holding.store.spaces.space _ h.loaded.2).userByte_high
            h.holding.store.spaces.pde.2 hhigh hva]
      · exact Memory.userByte_copied hf.copied.pages (by omega)
    · rw [if_neg hva, if_neg hva]
  have hafter : k'.memories =
      Function.update k.memories child (some (k.userMemory k.sched.currentPcb)) := by
    funext p
    by_cases hc : p = child
    · rw [hc, Function.update_self, memories_member hnew, hcopy]
    · rw [Function.update_of_ne hc]
      unfold memories
      by_cases hp : p ∈ k.members
      · have hp' : p ∈ k'.members := by
          rw [hmembers]
          exact List.mem_append_left _ hp
        have hkept := h.userMemory_kept h' hp hp' (by rw [hf.others p (mem_holders hp)])
          fun s f hs => hf.copied.kept f (h.slot_not_free hp hs)
        rw [if_pos hp, if_pos hp', hkept]
      · have hp' : p ∉ k'.members := by
          rw [hmembers, List.mem_append, List.mem_singleton]
          exact not_or.2 ⟨hp, hc⟩
        rw [if_neg hp, if_neg hp']
  rw [hafter]
  exact .clone memories_current (if_neg hfresh)

/-- A process that has left has no memory, and the others keep theirs. -/
theorem Inv.leave_memories (h : Inv L R safe k) (h' : Inv L R safe k') (he : Exited k k') :
    Memories.Step k.memories (k.sched.currentPcb, .leave) k'.memories := by
  have hcur : k.sched.currentPcb ∉ k.sched.ready.toList := (List.nodup_cons.1 h.members_nodup).1
  have hafter : k'.memories = Function.update k.memories k.sched.currentPcb none := by
    funext p
    by_cases hp : p = k.sched.currentPcb
    · rw [hp, Function.update_self]
      exact if_neg fun hmem => hcur (he.ready.mem_iff.2 hmem)
    · rw [Function.update_of_ne hp]
      unfold memories
      by_cases hready : p ∈ k.sched.ready.toList
      · have hmem : p ∈ k.members := List.mem_cons_of_mem _ hready
        have hmem' := he.ready.mem_iff.1 hready
        rw [if_pos hmem, if_pos hmem', h.others_kept h' hmem hmem' hp (he.pcbs p).1 fun f _ hne =>
          he.phys f hne]
      · have hmem : p ∉ k.members := fun hmem => hready ((List.mem_cons.1 hmem).resolve_left hp)
        have hmem' : p ∉ k'.members := fun hmem => hready (he.ready.mem_iff.2 hmem)
        rw [if_neg hmem, if_neg hmem']
  rw [hafter]
  exact .leave memories_current

/-- An exec writes no frame in use but the directory that it replaces. -/
theorem Inv.execModule_phys (h : Inv L R safe k) (frame : SyscallFrame) (modStart modEnd : Nat)
    {f : Nat} (hf : ¬ k.store.mem.pfa.Free f) (hne : f ≠ k.dirOf k.sched.currentPcb) :
    ByteMemory.BlockEq k.store.mem.phys (k.execModule frame modStart modEnd).2.1.store.mem.phys f := by
  rcases h.execModule_memory frame modStart modEnd with
    ⟨d, m, hbuilt, -, hstore, hmem, -⟩ | ⟨m, hrestored, hrun⟩
  · obtain ⟨p, phys, hres, -, -, hphys, -⟩ := hstore.spaces.destroy
    rw [hmem, hres]
    exact (hbuilt.phys f hf).trans (hphys f hne)
  · rw [hrun]
    exact hrestored.phys f hf

/-- The caller of an exec has the image of the module as its memory. -/
theorem Inv.load_memories (h : Inv L R safe k) (h' : Inv L R safe k') {modStart modEnd d : Nat}
    (he : Executed k modStart modEnd k' d)
    (hphys : ∀ f, ¬ k.store.mem.pfa.Free f → f ≠ k.dirOf k.sched.currentPcb →
      ByteMemory.BlockEq k.store.mem.phys k'.store.mem.phys f)
    (hbound : modEnd ≤ 2 ^ 32) (hne : modStart < modEnd)
    (hmodule : ∀ x, modStart ≤ x → x < modEnd →
      ¬ k.store.mem.pfa.Free (x / 4096) ∧ k.store.mem.phys x = src x) :
    Memories.Step k.memories
      (k.sched.currentPcb, .load (Memory.imageView src modStart (modEnd - modStart)))
      k'.memories := by
  have hmembers : k'.members = k.members := by
    unfold members
    rw [he.sched]
  have hcur : k.sched.currentPcb ∈ k'.members := hmembers ▸ k.current_mem
  have hpdt : (k'.pcbs k.sched.currentPcb).pdt = 4096 * d := by
    have hpcb := congrArg Pcb.pdt he.pcb
    rw [current, he.sched] at hpcb
    exact hpcb
  have hspace : Memory.Space k'.store.mem d := by
    have hspace := h'.holding.store.spaces.space _ (List.mem_map_of_mem (f := k'.dirOf) hcur)
    rw [dirOf, hpdt, Nat.mul_div_cancel_left _ (by norm_num)] at hspace
    exact hspace
  have hregion : Memory.Region k.store.mem modStart (modEnd - modStart) :=
    ⟨by omega, fun x hlo hhi => (hmodule x hlo (by omega)).1⟩
  have hpde := h'.holding.store.spaces.pde.2
  have hsize : ∀ va, va ≥ 2 ^ 32 →
      Memory.imageView src modStart (modEnd - modStart) va = none := by
    intro va hva
    have hpages := he.image.pages
    unfold Memory.imageView
    rw [if_neg (by omega), if_neg (by omega)]
  have himage : k'.userMemory k.sched.currentPcb =
      Memory.imageView src modStart (modEnd - modStart) := by
    rw [← Memory.imageView_congr fun x hlo hhi => (hmodule x hlo (by omega)).2]
    funext va
    unfold userMemory
    by_cases hva : va < 2 ^ 32
    · rw [if_pos hva, hpdt]
      exact he.image.view_of_space hspace hpde hregion hva
    · rw [if_neg hva, Memory.imageView_congr fun x hlo hhi => (hmodule x hlo (by omega)).2]
      exact (hsize va (by omega)).symm
  have hafter : k'.memories = Function.update k.memories k.sched.currentPcb
      (some (Memory.imageView src modStart (modEnd - modStart))) := by
    funext p
    by_cases hp : p = k.sched.currentPcb
    · rw [hp, Function.update_self, memories_member hcur, himage]
    · rw [Function.update_of_ne hp]
      unfold memories
      by_cases hmem : p ∈ k.members
      · have hmem' : p ∈ k'.members := hmembers ▸ hmem
        rw [if_pos hmem, if_pos hmem', h.others_kept h' hmem hmem' hp (by rw [he.others p hp]) hphys]
      · rw [if_neg hmem, if_neg (hmembers ▸ hmem)]
  rw [hafter]
  exact .load memories_current

/-- A user write changes one byte of the memory of the current process. -/
theorem Inv.store_memories (h : Inv L R safe k) (hs : safe) {va : Nat} {byte : UInt8}
    (hw : k.userWrite va byte = some k') :
    Memories.Step k.memories (k.sched.currentPcb, .store va byte) k'.memories := by
  have h' := h.userWrite hs hw
  have hconfined := h.writeConfined hs hw
  obtain ⟨hpdt, hloaded⟩ := h.loaded
  have hspaces := h.holding.store.spaces
  have hspace := hspaces.space _ hloaded
  have hdir : k.store.mem.cr3 / 4096 = k.dirOf k.sched.currentPcb := by
    rw [h.holding.cr3, hpdt, Nat.mul_div_cancel_left _ (by norm_num)]
  unfold Kernel.userWrite at hw
  simp only [hdir] at hw
  split at hw
  case isFalse => cases hw
  rename_i hcond
  obtain ⟨-, hva, hpde, hentry⟩ := hcond
  rw [Option.some.injEq] at hw
  have hodd := Memory.odd_of_userReadable (Memory.userReadable_of_userWritable hpde)
  have hpte : Memory.pte k.store.mem.phys (k.dirOf k.sched.currentPcb) (va / 2 ^ 22)
      (va / 2 ^ 12 % 1024) = k.store.mem.phys.word
        (k.store.mem.phys.word (k.dirOf k.sched.currentPcb) (va / 2 ^ 22) / 4096)
          (va / 2 ^ 12 % 1024) := if_pos hodd
  rw [← hpte] at hentry hw
  have hstored : ∀ va', va' < 2 ^ 32 →
      k'.store.mem.userByte (4096 * k.dirOf k.sched.currentPcb) va' =
        if va' = va then some byte
        else k.store.mem.userByte (4096 * k.dirOf k.sched.currentPcb) va' := fun va' hva' =>
    hspace.userByte_store (hspaces.filled hs _ hloaded) hspaces.pde.2 hva hva' hpde hentry
      (by rw [← hw]; rfl)
  have hmembers : k'.members = k.members := by rw [← hw]; rfl
  have hpcbs : k'.pcbs = k.pcbs := by rw [← hw]; rfl
  have hmapped : k.userMemory k.sched.currentPcb va ≠ none := by
    rw [userMemory, if_pos hva, show (k.pcbs k.sched.currentPcb).pdt = _ from hpdt,
      Memory.userByte_pte, if_pos ⟨Memory.userReadable_of_userWritable hpde,
        Memory.userReadable_of_userWritable hentry⟩]
    exact Option.some_ne_none _
  have hown : k'.userMemory k.sched.currentPcb =
      Function.update (k.userMemory k.sched.currentPcb) va (some byte) := by
    funext va'
    unfold userMemory
    rw [hpcbs, show (k.pcbs k.sched.currentPcb).pdt = _ from hpdt]
    by_cases hva' : va' < 2 ^ 32
    · rw [if_pos hva', hstored va' hva']
      by_cases hsame : va' = va
      · rw [if_pos hsame, hsame, Function.update_self]
      · rw [if_neg hsame, Function.update_of_ne hsame, if_pos hva']
    · rw [if_neg hva', Function.update_of_ne (by omega), if_neg hva']
  have hafter : k'.memories = Function.update k.memories k.sched.currentPcb
      (some (Function.update (k.userMemory k.sched.currentPcb) va (some byte))) := by
    funext p
    by_cases hp : p = k.sched.currentPcb
    · rw [hp, Function.update_self, memories_member (hmembers ▸ k.current_mem), hown]
    · rw [Function.update_of_ne hp]
      unfold memories
      by_cases hmem : p ∈ k.members
      · have hmem' : p ∈ k'.members := hmembers ▸ hmem
        rw [if_pos hmem, if_pos hmem', h.userMemory_kept h' hmem hmem' (by rw [hpcbs])
          (hconfined.others p hmem hp)]
      · rw [if_neg hmem, if_neg (hmembers ▸ hmem)]
  rw [hafter]
  exact .store memories_current hmapped

/-! ## Steps -/

/-- An exit that finds nobody to switch to leaves the store alone. -/
theorem Inv.sysExit_store (h : Inv L R safe k) {frame frame' : SyscallFrame} {r : Nat}
    (hidle : k.idle = false) (hrun : k.sysExit frame = (r, k', frame')) (hstop : k'.idle = true) :
    k'.store = k.store := by
  have hr₁ := rescheduled_markTerminated k
  have h₁ := h.relabel hr₁ rfl rfl rfl
  obtain ⟨code, k₂, context, hcall, hr₂, hcases⟩ :=
    schedule_spec h₁.zero_notMem h₁.holding.cr3 (ProcessContext.ofWords frame.words) false .exit
  rw [sysExit_eq h.current_ne hcall, Prod.mk.injEq, Prod.mk.injEq] at hrun
  obtain ⟨-, hafter, -⟩ := hrun
  rcases hcases with ⟨rfl, hstore, -⟩ | ⟨rfl, -⟩
  · rw [← hafter, if_neg (by decide)]
    exact hstore
  · rw [← hafter, if_pos (by decide)] at hstop
    have hkept : k₂.idle = k.idle := hr₂.idle.trans hr₁.idle
    rw [hidle] at hkept
    change k₂.idle = true at hstop
    rw [hkept] at hstop
    cases hstop

/-- A trap is an action of the current process, and writes no frame in use but the directory
that this process gives up. -/
theorem Inv.trap_acts (h : Inv L R safe k) (hpristine : Pristine R src k) {t : Trap}
    {out : ProcessContext} (ht : k.trap L t = some (k', out)) :
    (∃ act, Acts src k (.trap t out) k' act ∧
      Memories.Step k.memories (k.sched.currentPcb, act) k'.memories) ∧
      ∀ f, ¬ k.store.mem.pfa.Free f → f ≠ k.dirOf k.sched.currentPcb →
        ByteMemory.BlockEq k.store.mem.phys k'.store.mem.phys f := by
  have h' := h.trap ht
  have hpass : ∀ {k' : Kernel}, k'.memories = k.memories →
      Memories.Step k.memories (k.sched.currentPcb, .pass) k'.memories := by
    intro k' hsame
    rw [hsame]
    exact .pass
  have hrefl : ∀ {phys : ByteMemory}, phys = k.store.mem.phys → ∀ f,
      ByteMemory.BlockEq k.store.mem.phys phys f := by
    rintro phys rfl f
    exact ByteMemory.BlockEq.refl _ _
  obtain ⟨hidle, hcase⟩ := trap_cases ht
  cases hcase with
  | quiet hquiet =>
      exact ⟨⟨.pass, .pass (fun hf => False.elim hf) (fun he => False.elim he)
        fun he => False.elim he, hpass rfl⟩, fun f _ _ => hrefl rfl f⟩
  | @timer frame code k' context henabled hring hrun =>
      obtain ⟨hsame, hphys⟩ := h.tick.schedule_memories (frameUserToContext frame) .pit
      rw [hrun] at hsame hphys
      exact ⟨⟨.pass, .pass (fun hf => False.elim hf) (fun he => False.elim he)
        fun he => False.elim he, hpass hsame⟩, fun f _ _ => hrefl hphys f⟩
  | @plain frame kernelByte r hring hnumber =>
      have hother : frame.eax ≠ 2 ∧ frame.eax ≠ 5 := by
        simp only [List.mem_cons, not_or] at hnumber
        exact ⟨hnumber.1, hnumber.2.2.2.1⟩
      exact ⟨⟨.pass, .pass (fun _ => rfl) (fun he => absurd he hother.1)
        fun he => absurd he hother.2, hpass rfl⟩, fun f _ _ => hrefl rfl f⟩
  | @exec frame frame' kernelByte r k' hring hnumber hrun =>
      have hexit : ¬ Trap.IsExit (.syscall frame kernelByte) := by
        simp only [Trap.IsExit, hnumber]
        decide
      have hfork : ¬ Trap.IsFork (.syscall frame kernelByte) := by
        simp only [Trap.IsFork, hnumber]
        decide
      have hgave : ∀ {k' : Kernel} {frame' : SyscallFrame},
          k'.memories = k.memories → ∃ act,
            Acts src k (.trap (.syscall frame kernelByte) (returned frame' minusOne)) k' act ∧
              Memories.Step k.memories (k.sched.currentPcb, act) k'.memories := fun hsame =>
        ⟨.pass, .pass (fun hf => absurd hf hfork)
          (fun _ => show minusOne ≠ 0 by decide) (fun he => absurd he hexit), hpass hsame⟩
      rcases sysExec_cases hrun with heq | ⟨path, a, b, hpath, hfound, heq⟩
      · cases heq
        exact ⟨hgave rfl, fun f _ _ => hrefl rfl f⟩
      · have hspec := execModule_spec h frame a b
        have hphys : ∀ f, ¬ k.store.mem.pfa.Free f → f ≠ k.dirOf k.sched.currentPcb →
            ByteMemory.BlockEq k.store.mem.phys k'.store.mem.phys f := fun f hf hne => by
          have hwritten := h.execModule_phys frame a b hf hne
          rw [← heq] at hwritten
          exact hwritten
        rw [← heq] at hspec
        refine ⟨?_, hphys⟩
        cases hspec with
        | failed inv aside short restored rest =>
            refine hgave (h.memories_kept inv ?_ (fun p hp => ?_) restored.phys)
            · rw [aside.members]
            · rw [aside.pcbs p (mem_holders hp)]
        | @done k' d inv executed room =>
            obtain ⟨hbound, hmodule⟩ := hpristine path a b hfound
            refine ⟨_, .load hnumber rfl hpath hfound, ?_⟩
            refine h.load_memories inv executed hphys hbound room.1 fun x hlo hhi => ?_
            obtain ⟨hreserved, hbyte⟩ := hmodule x hlo hhi
            refine ⟨fun hfree => ?_, hbyte⟩
            have hused := (h.holding.store.spaces.kept _ (.inl hreserved)).1
            rw [hfree.2.2] at hused
            cases hused
  | @fork frame kernelByte r k' hring hnumber hrun =>
      have hspec := sysFork_spec h frame
      rw [hrun] at hspec
      cases hspec with
      | failed inv aside short spent counter grown =>
          refine ⟨⟨.pass, .pass (fun _ => aside.members) (fun he => ?_) (fun he => ?_), hpass ?_⟩,
            fun f hf _ => grown.phys f hf⟩
          · simp only [Trap.IsExec, hnumber] at he
            cases he
          · simp only [Trap.IsExit, hnumber] at he
            cases he
          · refine h.memories_kept inv ?_ (fun p hp => ?_) grown.phys
            · rw [aside.members]
            · rw [aside.pcbs p (mem_holders hp)]
      | forked inv forked =>
          exact ⟨⟨_, .clone hnumber forked.members, h.clone_memories inv forked⟩,
            fun f hf _ => forked.copied.kept f hf⟩
  | @yield frame frame' kernelByte r k' hring hnumber hrun =>
      obtain ⟨code, k₁, context, hsched, hyield⟩ := sysYield_eq h.zero_notMem h.holding.cr3 frame
      obtain ⟨hsame, hphys⟩ := h.schedule_memories (ProcessContext.ofWords frame.words) .yield
      rw [hrun, Prod.mk.injEq, Prod.mk.injEq] at hyield
      rw [hsched] at hsame hphys
      rw [← hyield.2.1] at hsame hphys
      refine ⟨⟨.pass, .pass (fun hf => ?_) (fun he => ?_) (fun he => ?_), hpass hsame⟩,
        fun f _ _ => hrefl hphys f⟩
      · simp only [Trap.IsFork, hnumber] at hf
        cases hf
      · simp only [Trap.IsExec, hnumber] at he
        cases he
      · simp only [Trap.IsExit, hnumber] at he
        cases he
  | @exit frame frame' kernelByte r k' hring hnumber hrun =>
      have hspec := sysExit_spec h frame
      rw [hrun] at hspec
      cases hspec with
      | switched inv exited =>
          exact ⟨⟨.leave, .leave hnumber (exited.idle.trans hidle), h.leave_memories inv exited⟩,
            fun f _ hne => exited.phys f hne⟩
      | idle inv idle kept members alone =>
          have hstore := h.sysExit_store hidle hrun idle
          refine ⟨⟨.pass, .pass (fun hf => ?_) (fun he => ?_) (fun _ => idle), hpass ?_⟩,
            fun f _ _ => hrefl (by rw [hstore]) f⟩
          · simp only [Trap.IsFork, hnumber] at hf
            cases hf
          · simp only [Trap.IsExec, hnumber] at he
            cases he
          · refine h.memories_kept inv ?_ (fun p _ => (kept.pcbs p).1) fun f _ => ?_
            · rw [members]
            · exact hrefl (by rw [hstore]) f

/-- The modules stay as they are: no step writes a frame that the kernel keeps. -/
theorem Pristine.step (hpristine : Pristine R src k) (h : Inv L R safe k) {e : Event}
    (hstep : k.Step L safe e k') : Pristine R src k' := by
  have hspaces := h.holding.store.spaces
  have hreserved : ∀ f, R f → ByteMemory.BlockEq k.store.mem.phys k'.store.mem.phys f := by
    intro f hf
    obtain ⟨hused, hout⟩ := hspaces.kept f (.inl hf)
    cases hstep with
    | trap ht =>
        refine (h.trap_acts hpristine ht).2 f (fun hfree => ?_) ?_
        · rw [hfree.2.2] at hused
          cases hused
        · rintro rfl
          exact hout _ h.loaded.2 (hspaces.dir_owned h.loaded.2)
    | write hsafe hw =>
        obtain ⟨i, j, g, hpage⟩ := h.writePage hsafe hw
        refine hpage.kept f ?_
        rintro rfl
        exact hout _ h.loaded.2 (h.owns hsafe k.current_mem hpage.slot)
  have hmodules : k'.modules = k.modules := by
    cases hstep with
    | trap ht => exact h.trap_modules ht
    | write hsafe hw =>
        obtain ⟨i, j, g, hpage⟩ := h.writePage hsafe hw
        rw [hpage.kernel]
        rfl
  intro path a b hfound
  rw [hmodules] at hfound
  obtain ⟨hbound, hmodule⟩ := hpristine path a b hfound
  refine ⟨hbound, fun x hlo hhi => ?_⟩
  obtain ⟨hx, hbyte⟩ := hmodule x hlo hhi
  exact ⟨hx, (hreserved _ hx x rfl).symm.trans hbyte⟩

/-- Every step of the kernel is a step of the private memories. -/
theorem Inv.acted (h : Inv L R safe k) (hpristine : Pristine R src k) {e : Event}
    (hstep : k.Step L safe e k') :
    ∃ act, Acted L safe src k (e, k.sched.currentPcb, act) k' ∧
      Memories.Step k.memories (k.sched.currentPcb, act) k'.memories := by
  cases hstep with
  | trap ht =>
      obtain ⟨⟨act, hacts, hmemories⟩, -⟩ := h.trap_acts hpristine ht
      exact ⟨act, ⟨.trap ht, rfl, hacts⟩, hmemories⟩
  | write hsafe hw => exact ⟨_, ⟨.write hsafe hw, rfl, .store⟩, h.store_memories hsafe hw⟩

/-- An event is one action only. -/
theorem Acts.unique {e : Event} {act act' : MemoryAction Nat Nat UInt8} (h : Acts src k e k' act)
    (h' : Acts src k e k' act') : act = act' := by
  have hgrew : ∀ child, k'.members = k.members ++ [child] → k'.members ≠ k.members := by
    intro child hmembers hsame
    rw [hsame] at hmembers
    simpa using congrArg List.length hmembers
  have hfork : ∀ {t : Trap}, t.IsFork → ¬ t.IsExec ∧ ¬ t.IsExit := by
    rintro (frame | ⟨frame, kernelByte⟩) ht
    · exact False.elim ht
    · simp only [Trap.IsFork] at ht
      simp [Trap.IsExec, Trap.IsExit, ht]
  have hexec : ∀ {t : Trap}, t.IsExec → ¬ t.IsExit := by
    rintro (frame | ⟨frame, kernelByte⟩) ht
    · exact False.elim ht
    · simp only [Trap.IsExec] at ht
      simp [Trap.IsExit, ht]
  cases h with
  | store =>
      cases h'
      rfl
  | clone hf hmembers =>
      cases h' with
      | clone hf' hmembers' =>
          rw [hmembers, List.append_cancel_left_eq, List.cons.injEq] at hmembers'
          rw [hmembers'.1]
      | load hnumber => exact absurd hnumber (hfork hf).1
      | leave hexit => exact absurd hexit (hfork hf).2
      | pass hpass => exact absurd (hpass hf) (hgrew _ hmembers)
  | load hnumber hout hpath hfound =>
      cases h' with
      | clone hf' hmembers' => exact absurd hnumber (hfork hf').1
      | load hnumber' hout' hpath' hfound' =>
          rw [hpath, Option.some.injEq, Option.some.injEq] at hpath'
          subst hpath'
          rw [hfound, Option.some.injEq, Prod.mk.injEq] at hfound'
          rw [hfound'.1, hfound'.2]
      | leave hexit => exact absurd hexit (hexec hnumber)
      | pass hpass hload => exact absurd hout (hload hnumber)
  | leave hexit hidle =>
      cases h' with
      | clone hf' hmembers' => exact absurd hexit (hfork hf').2
      | load hnumber' => exact absurd hexit (hexec hnumber')
      | leave hexit' => rfl
      | pass hpass hload hstop =>
          rw [hstop hexit] at hidle
          cases hidle
  | pass hpass hload hstop =>
      cases h' with
      | clone hf' hmembers' => exact absurd (hpass hf') (hgrew _ hmembers')
      | load hnumber' hout' => exact absurd hout' (hload hnumber')
      | leave hexit' hidle' =>
          rw [hstop hexit'] at hidle'
          cases hidle'
      | pass => rfl

/-- The events of a run determine its actions and its states. -/
theorem Acted.unique {as bs : List (Event × Nat × MemoryAction Nat Nat UInt8)}
    (h : Trace (Acted L safe src) k₀ as k) (h' : Trace (Acted L safe src) k₀ bs k')
    (hevents : as.map Prod.fst = bs.map Prod.fst) : as = bs ∧ k = k' := by
  refine h.unique Prod.fst (fun k₁ a a' k₂ k₂' ha ha' he => ?_) h' hevents
  obtain ⟨e, p, act⟩ := a
  obtain ⟨e', p', act'⟩ := a'
  obtain rfl : e = e' := he
  have hkernel : k₂ = k₂' := by
    have hstep := ha.step
    have hstep' := ha'.step
    cases hstep with
    | trap ht =>
        cases hstep' with
        | trap ht' =>
            rw [ht, Option.some.injEq, Prod.mk.injEq] at ht'
            exact ht'.1
    | write hsafe hw =>
        cases hstep' with
        | write hsafe' hw' =>
            rw [hw, Option.some.injEq] at hw'
            exact hw'
  subst hkernel
  obtain rfl : p = p' := ha.actor.trans ha'.actor.symm
  obtain rfl : act = act' := ha.acts.unique ha'.acts
  exact ⟨rfl, rfl⟩

/-- A trace of the kernel is one of the private memories. -/
theorem Inv.memories_trace (h : Inv L R safe k₀) (hpristine : Pristine R src k₀)
    {as : List (Event × Nat × MemoryAction Nat Nat UInt8)}
    (htrace : Trace (Acted L safe src) k₀ as k) :
    Trace Memories.Step k₀.memories (as.map Prod.snd) k.memories := by
  have hrun : Inv L R safe k ∧ Pristine R src k ∧
      Trace Memories.Step k₀.memories (as.map Prod.snd) k.memories := by
    induction htrace with
    | start => exact ⟨h, hpristine, .start⟩
    | @next as a k k' hs ha ih =>
        obtain ⟨hinv, hkept, hmemories⟩ := ih
        obtain ⟨act, hacted, hstep⟩ := hinv.acted hkept ha.step
        obtain ⟨e, p, act'⟩ := a
        have hactor : p = k.sched.currentPcb := ha.actor
        have hsame : act' = act := ha.acts.unique hacted.acts
        subst hactor hsame
        refine ⟨hinv.step ha.step, hkept.step hinv ha.step, ?_⟩
        rw [List.map_append]
        exact hmemories.next hstep
  exact hrun.2.2

/-! ## Boot -/

/-- A pass over a module writes no frame that the kernel keeps. -/
theorem Booting.pass_reserved {n first : Nat} (h : Booting L B n first k) {mod : MultibootModule}
    {r : Nat × Kernel} (hrun : bootModule L (first, k) mod = some r) {f : Nat} (hf : f ≠ 0)
    (hreserved : Reserved L B.mods f) :
    ByteMemory.BlockEq k.store.mem.phys r.2.store.mem.phys f := by
  have hused := (h.holding.store.spaces.kept f (.inl hreserved)).1
  have hbusy : ¬ k.store.mem.pfa.Free f := by
    intro hfree
    rw [hfree.2.2] at hused
    cases hused
  have hspec := createPcbGrubModules_spec h.holding mod.modStart mod.modEnd
  unfold bootModule at hrun
  generalize k.createPcbGrubModules L mod.modStart mod.modEnd = made at hspec hrun
  cases hspec with
  | fault high => cases hrun
  | failed hold beside short fails =>
      simp only [if_true, Option.some.injEq] at hrun
      rw [← hrun]
      cases fails with
      | pcb short grown => exact grown.phys f hbusy
      | directory pcb short phys =>
          simp only [phys]
          exact (ByteMemory.blockEq_fill (n := 0) _ hf).symm
      | stack pcb frame short grown => exact grown.phys f hbusy
  | @made k' m₀ pcb d base x made =>
      have hkept := made.kept_used hf hused
      simp only [if_neg made.pcb_ne] at hrun
      by_cases hfirst : first = 0
      · simp only [if_pos hfirst, Option.some.injEq] at hrun
        rw [← hrun]
        exact hkept
      · simp only [if_neg hfirst] at hrun
        rcases schedulerEnqueueReady_cases (k'.setPcb pcb { k'.pcbs pcb with state := .ready })
          made.pcb_ne with ⟨-, ready, -, henq⟩ | ⟨-, henq⟩
        · simp only [henq, Option.some.injEq] at hrun
          rw [← hrun]
          exact hkept
        · simp only [henq, Option.some.injEq] at hrun
          rw [← hrun]
          exact hkept

/-- Boot writes no frame that the kernel keeps. -/
theorem kmain_reserved (hboot : kmain L B = some k₀) {f : Nat} (hf : f ≠ 0)
    (hreserved : Reserved L B.mods f) : ByteMemory.BlockEq B.phys k₀.store.mem.phys f := by
  have hloop : ∀ (mods : List MultibootModule) (n first : Nat) (k : Kernel) (r : Nat × Kernel),
      Booting L B n first k → n + mods.length ≤ B.mods.length →
      mods.foldlM (bootModule L) (first, k) = some r →
      ByteMemory.BlockEq k.store.mem.phys r.2.store.mem.phys f := by
    intro mods
    induction mods with
    | nil =>
        intro n first k r h hn hrun
        rw [List.foldlM_nil] at hrun
        cases hrun
        exact ByteMemory.BlockEq.refl _ _
    | cons mod rest ih =>
        intro n first k r h hn hrun
        rw [List.foldlM_cons] at hrun
        rw [List.length_cons] at hn
        cases hpass : bootModule L (first, k) mod with
        | none =>
            rw [hpass] at hrun
            cases hrun
        | some s =>
            rw [hpass] at hrun
            exact (h.pass_reserved hpass hf hreserved).trans
              (ih (n + 1) s.1 s.2 r (h.pass (by omega) hpass) (by omega) hrun)
  unfold kmain at hboot
  cases hall : B.mods.foldlM (bootModule L) (0, bootKernel L B) with
  | none =>
      rw [hall] at hboot
      cases hboot
  | some r =>
      rw [hall] at hboot
      have hkept := hloop B.mods 0 0 _ r (booting_start L B) (Nat.zero_add _).le hall
      obtain ⟨first, k⟩ := r
      simp only at hboot
      split at hboot
      · cases hboot
      · rename_i hfirst
        rw [Option.some.injEq, runUserModeModule_eq k hfirst] at hboot
        rw [← hboot]
        exact hkept

/-- After boot, the modules are as the boot loader left them. -/
theorem pristine_start (hboot : kmain L B = some k₀)
    (hmods : ∀ mod ∈ B.mods, ∀ f, ModuleFrame mod f → f ≠ 0 ∧ (bootPfa L B.mods).used f = true) :
    Pristine (Reserved L B.mods) B.phys k₀ := by
  intro path a b hfound
  rw [(kmain_started hboot).modules] at hfound
  obtain ⟨mod, hmod, rfl, rfl⟩ := moduleLoaderFind_mem hfound
  refine ⟨(B.mods_hi mod hmod).2.trans (by norm_num), fun x hlo hhi => ?_⟩
  obtain ⟨hne, hreserved⟩ := hmods mod hmod (x / 4096) ⟨x, hlo, hhi, rfl⟩
  exact ⟨hreserved, (kmain_reserved hboot hne hreserved x rfl).symm⟩

/-! ## Runs -/

/-- The modules are as the boot loader left them in every state of a run. -/
theorem runs_pristine (hboot : kmain L B = some k₀)
    (hmods : ∀ mod ∈ B.mods, ∀ f, ModuleFrame mod f → f ≠ 0 ∧ (bootPfa L B.mods).used f = true)
    {es : List Event} (h : Runs L k₀ es k) :
    Inv L (Reserved L B.mods) (k₀.store.mem.pfa.exhausted = false) k ∧
      Pristine (Reserved L B.mods) B.phys k := by
  induction h with
  | start => exact ⟨kmain_inv hboot, pristine_start hboot hmods⟩
  | next hs ha ih => exact ⟨ih.1.step ha, ih.2.step ih.1 ha⟩

/-- Every run of the kernel is a trace of the private memories, event by event. -/
theorem runs_refine_private_memories (hboot : kmain L B = some k₀)
    (hmods : ∀ mod ∈ B.mods, ∀ f, ModuleFrame mod f → f ≠ 0 ∧ (bootPfa L B.mods).used f = true)
    {es : List Event} (h : Runs L k₀ es k) :
    ∃ as, as.map Prod.fst = es ∧
      Trace (Acted L (k₀.store.mem.pfa.exhausted = false) B.phys) k₀ as k ∧
      Trace Memories.Step k₀.memories (as.map Prod.snd) k.memories := by
  have hacted : ∃ as, as.map Prod.fst = es ∧
      Trace (Acted L (k₀.store.mem.pfa.exhausted = false) B.phys) k₀ as k := by
    induction h with
    | start => exact ⟨[], rfl, .start⟩
    | @next es e k k' hs ha ih =>
        obtain ⟨as, hes, hacted⟩ := ih
        obtain ⟨hinv, hpristine⟩ := runs_pristine hboot hmods hs
        obtain ⟨act, hstep, -⟩ := hinv.acted hpristine ha
        refine ⟨_, ?_, hacted.next hstep⟩
        rw [List.map_append, hes]
        rfl
  obtain ⟨as, hes, htrace⟩ := hacted
  exact ⟨as, hes, htrace, (kmain_inv hboot).memories_trace (pristine_start hboot hmods) htrace⟩

theorem sampleBoot_kept {n : Nat} {hn : n ≤ 33} {policy : SchedulingPolicy} :
    ∀ mod ∈ (sampleBoot n hn policy).mods, ∀ f, ModuleFrame mod f →
      f ≠ 0 ∧ (bootPfa sampleLayout (sampleBoot n hn policy).mods).used f = true := by
  intro mod hmod f hf
  refine ⟨?_, bootPfa_reserves _ hmod (sampleBoot_aligned mod hmod) hf⟩
  obtain ⟨i, -, rfl⟩ := List.mem_map.1 hmod
  obtain ⟨x, hlo, -, hframe⟩ := hf
  simp only [sampleModule] at hlo
  omega

/-- What the first process does in the sample run before the others run: it loads the image of
the first module and writes a byte of its stack. -/
def sampleOwn (src : ByteMemory) (out₁ : ProcessContext) (p : Nat) :
    List (Event × Nat × MemoryAction Nat Nat UInt8) :=
  [(.trap (.syscall sampleExec (samplePath 97)) out₁, p,
      .load (Memory.imageView src 0x300000 (0x301000 - 0x300000))),
    (.write 0xBFFFF000 42, p, .store 0xBFFFF000 42)]

/-- What the processes do in the rest of the sample run. -/
def sampleRest (out₃ out₄ out₅ : ProcessContext) (p q child : Nat) :
    List (Event × Nat × MemoryAction Nat Nat UInt8) :=
  [(.trap (.syscall (sampleCall 3) fun _ => none) out₃, p, .clone child),
    (.trap (.timer sampleTick) out₄, p, .pass),
    (.trap (.syscall (sampleCall 5) fun _ => none) out₅, q, .leave)]

theorem current_of_members {p : Nat} {ps : List Nat} (h : k.members = p :: ps) :
    k.sched.currentPcb = p :=
  (List.cons.inj h).1

/-- The actions of the sample run. -/
theorem SampleRun.acted {k₁ k₂ k₃ k₄ k₅ : Kernel} {out₁ out₃ out₄ out₅ : ProcessContext}
    {p q child : Nat} (h : SampleRun k₀ k₁ k₂ k₃ k₄ k₅ out₁ out₃ out₄ out₅ p q child)
    (hsafe : safe) (src : ByteMemory) :
    Trace (Acted sampleLayout safe src) k₀ (sampleOwn src out₁ p) k₂ ∧
      Trace (Acted sampleLayout safe src) k₀
        (sampleOwn src out₁ p ++ sampleRest out₃ out₄ out₅ p q child) k₅ := by
  have hloads : Acted sampleLayout safe src k₀ (_, p, _) k₁ :=
    ⟨.trap h.exec, (current_of_members h.start.1).symm,
      .load rfl h.loaded.1 (samplePath_read _ (by decide)) h.loaded.2.2⟩
  have hstores : Acted sampleLayout safe src k₁ (_, p, _) k₂ :=
    ⟨.write hsafe h.write, (current_of_members h.loaded.2.1).symm, .store⟩
  have hwrite : Trace (Acted sampleLayout safe src) k₀ (sampleOwn src out₁ p) k₂ :=
    (Trace.start.next hloads).next hstores
  have hchild : k₃.members = k₂.members ++ [child] := by
    rw [h.forked.1, h.written.1]
    rfl
  have hclones : Acted sampleLayout safe src k₂ (.trap (.syscall (sampleCall 3) _) out₃, p, _) k₃ :=
    ⟨.trap h.fork, (current_of_members h.written.1).symm, .clone rfl hchild⟩
  have hpasses : Acted sampleLayout safe src k₃ (.trap (.timer sampleTick) out₄, p, _) k₄ :=
    ⟨.trap h.tick, (current_of_members h.forked.1).symm,
      .pass (fun hf => False.elim hf) (fun he => False.elim he) fun he => False.elim he⟩
  have hleaves : Acted sampleLayout safe src k₄ (.trap (.syscall (sampleCall 5) _) out₅, q, _) k₅ :=
    ⟨.trap h.exit, (current_of_members h.switched).symm, .leave rfl h.left.2.2⟩
  exact ⟨hwrite, ((hwrite.next hclones).next hpasses).next hleaves⟩

theorem runs_refine_private_memories_sample_run :
    ∃ k₀ k₁ k₂ k₃ k₄ k₅ out₁ out₃ out₄ out₅ p q child,
      kmain sampleLayout (sampleBoot 2 (by decide) .fcfs) = some k₀ ∧
      SampleRun k₀ k₁ k₂ k₃ k₄ k₅ out₁ out₃ out₄ out₅ p q child ∧
      Trace Memories.Step k₀.memories
        [(p, .load (Memory.imageView (sampleBoot 2 (by decide) .fcfs).phys 0x300000 0x1000)),
          (p, .store 0xBFFFF000 42), (p, .clone child), (p, .pass), (q, .leave)] k₅.memories := by
  obtain ⟨k₀, k₁, k₂, k₃, k₄, k₅, out₁, out₃, out₄, out₅, p, q, child, hboot, hplenty, hrun⟩ :=
    sampleRun_exists
  obtain ⟨as, hevents, hacted, hmemories⟩ :=
    runs_refine_private_memories hboot sampleBoot_kept (hrun.runs hplenty)
  obtain ⟨rfl, -⟩ := Acted.unique hacted (hrun.acted hplenty _).2 hevents
  exact ⟨k₀, k₁, k₂, k₃, k₄, k₅, out₁, out₃, out₄, out₅, p, q, child, hboot, hrun, hmemories⟩

/-- Two runs, of the same machine or of two, in which a process that stays makes the same
changes to the same memory leave it the same memory. -/
theorem memory_depends_on_own_changes {L' : Layout} {B' : BootInfo} {k₀' k₁ k₁' : Kernel}
    (hboot : kmain L B = some k₀) (hboot' : kmain L' B' = some k₀')
    (hmods : ∀ mod ∈ B.mods, ∀ f, ModuleFrame mod f → f ≠ 0 ∧ (bootPfa L B.mods).used f = true)
    (hmods' : ∀ mod ∈ B'.mods, ∀ f, ModuleFrame mod f →
      f ≠ 0 ∧ (bootPfa L' B'.mods).used f = true)
    {es es' : List Event} (hstart : Runs L k₀ es k₁) (hstart' : Runs L' k₀' es' k₁')
    {as bs : List (Event × Nat × MemoryAction Nat Nat UInt8)}
    (h : Trace (Acted L (k₀.store.mem.pfa.exhausted = false) B.phys) k₁ as k)
    (h' : Trace (Acted L' (k₀'.store.mem.pfa.exhausted = false) B'.phys) k₁' bs k') {p : Nat}
    (hp : p ∈ k₁.members) (hsame : k₁.memories p = k₁'.memories p)
    (hown : Memories.own p (as.map Prod.snd) = Memories.own p (bs.map Prod.snd))
    (hstay : .leave ∉ Memories.own p (as.map Prod.snd)) : k.memories p = k'.memories p := by
  obtain ⟨hinv, hpristine⟩ := runs_pristine hboot hmods hstart
  obtain ⟨hinv', hpristine'⟩ := runs_pristine hboot' hmods' hstart'
  refine Memories.same_of_traces (hinv.memories_trace hpristine h)
    (hinv'.memories_trace hpristine' h') hsame ?_ hown hstay
  rw [memories_member hp]
  exact Option.some_ne_none _

/-- The first process has the same memory after its own two actions and at the end of the run,
when it has a child, has waited and the second process has left. -/
theorem memory_depends_on_own_changes_sample_run :
    ∃ k₀ k₁ k₂ k₃ k₄ k₅ out₁ out₃ out₄ out₅ p q child,
      kmain sampleLayout (sampleBoot 2 (by decide) .fcfs) = some k₀ ∧
      SampleRun k₀ k₁ k₂ k₃ k₄ k₅ out₁ out₃ out₄ out₅ p q child ∧
      k₂.memories p = k₅.memories p := by
  obtain ⟨k₀, k₁, k₂, k₃, k₄, k₅, out₁, out₃, out₄, out₅, p, q, child, hboot, hplenty, hrun⟩ :=
    sampleRun_exists
  obtain ⟨hown, hall⟩ := hrun.acted hplenty (sampleBoot 2 (by decide) .fcfs).phys
  have hmembers := hrun.start.1
  have hne : q ≠ p := by
    have hnodup := (kmain_inv hboot).members_nodup
    rw [hmembers, List.nodup_cons, List.mem_singleton] at hnodup
    exact Ne.symm hnodup.1
  -- The fork and the tick change no memory of the first process, and the exit is not its own.
  have hsame : Memories.own p ((sampleOwn (sampleBoot 2 (by decide) .fcfs).phys out₁ p ++
      sampleRest out₃ out₄ out₅ p q child).map Prod.snd) =
        Memories.own p ((sampleOwn (sampleBoot 2 (by decide) .fcfs).phys out₁ p).map Prod.snd) := by
    simp [sampleOwn, sampleRest, Memories.own, MemoryAction.changes, hne]
  have hstay : .leave ∉
      Memories.own p ((sampleOwn (sampleBoot 2 (by decide) .fcfs).phys out₁ p).map Prod.snd) := by
    simp [sampleOwn, Memories.own, MemoryAction.changes]
  refine ⟨k₀, k₁, k₂, k₃, k₄, k₅, out₁, out₃, out₄, out₅, p, q, child, hboot, hrun, ?_⟩
  apply memory_depends_on_own_changes hboot hboot sampleBoot_kept sampleBoot_kept .start .start hown
    hall ?_ rfl hsame.symm hstay
  rw [hmembers]
  exact List.mem_cons_self

end Memories

end Kernel

end SoKernel
