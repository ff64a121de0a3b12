import SoKernel.Process.AllOrNothing
import SoKernel.Syscall.Fork

/-!
# What a new process can read

{lit}`pfa_alloc` does not clear the frames it hands out, so a frame comes with the bytes that
its last owner left.  An address space is built in three places.  {lit}`build_new_image` and
{lit}`clone_user_space` write every byte of every page they map.
{lit}`create_pcb_grub_modules` writes the first page of the code; the second one and the stack
are mapped as they are.

Two memories are compared that differ in free frames only.

Main results:

- Theorems {lit}`sameView_builtImage` and {lit}`sameView_clonedSpace`: the image of a module and
  the copy of a space look the same in both.
- Theorem {lit}`Made.view`: what user mode reads in a process made at boot.
- Theorem {lit}`no_stale_memory_iff`: on which frames everything depends.
-/

namespace SoKernel

namespace Memory

/-! ## Views -/

/-- Two constructions, each given by the directory and the memory it yields, show the same
bytes to user mode, or both yield nothing. -/
def SameView : Option (Nat × Memory) → Option (Nat × Memory) → Prop
  | some x, some y => ∀ va, va < 2 ^ 32 → x.2.userByte x.1 va = y.2.userByte y.1 va
  | none, none => True
  | _, _ => False

/-- The bytes that user mode can read are the {lit}`n` bytes of the module at {lit}`a`, and
otherwise zero. -/
def ShowsModule (src : ByteMemory) (a n : Nat) (r : Option (Nat × Memory)) : Prop :=
  ∀ x ∈ r, ∀ va b, va < 2 ^ 32 → x.2.userByte x.1 va = some b →
    b = if va < n then src (a + va) else 0

section Views

variable {m m₀ : Memory} {d va : Nat}

/-- User mode reads through the two entries of the page. -/
theorem userByte_pte (m : Memory) (d va : Nat) :
    m.userByte (4096 * d) va =
      if userReadable (m.phys.word d (va / 2 ^ 22)) ∧
          userReadable (pte m.phys d (va / 2 ^ 22) (va / 2 ^ 12 % 1024)) then
        some (m.phys (4096 * (pte m.phys d (va / 2 ^ 22) (va / 2 ^ 12 % 1024) / 4096) + va % 4096))
      else none := by
  simp only [userByte, Nat.mul_div_cancel_left d (show 0 < 4096 by norm_num)]
  by_cases hread : userReadable (m.phys.word d (va / 2 ^ 22))
  · rw [pte, if_pos (odd_of_userReadable hread)]
  · rw [if_neg fun h => hread h.1, if_neg fun h => hread h.1]

/-- User mode reads nothing through an absent entry. -/
theorem not_userReadable_of_even {e : Nat} (h : ¬ e % 2 = 1) : ¬ userReadable e := fun hread =>
  h (odd_of_userReadable hread)

/-- User mode reads nothing in the kernel's part. -/
theorem userByte_high (hkernel : m.phys.word d 768 % 8 = 3)
    (hhigh : ∀ i, 768 < i → i < 1024 → m.phys.word d i = 0) (hlo : 0xC0000000 ≤ va)
    (hva : va < 2 ^ 32) : m.userByte (4096 * d) va = none := by
  rw [userByte_pte, if_neg]
  rintro ⟨hread, -⟩
  by_cases hentry : va / 2 ^ 22 = 768
  · rw [hentry] at hread
    simp only [userReadable, hkernel] at hread
    cases hread
  · rw [hhigh _ (by omega) (by omega)] at hread
    cases hread

/-- A space that is being built shows nothing of the kernel's part. -/
theorem Built.userByte_high {X : List Nat} (hb : Built m₀ m d X)
    (hpde : m₀.pageDirectory 768 % 8 = 3) (hlo : 0xC0000000 ≤ va) (hva : va < 2 ^ 32) :
    m.userByte (4096 * d) va = none := by
  refine Memory.userByte_high ?_ hb.high hlo hva
  rw [hb.kernel, hb.same.pageDirectory]
  exact hpde

end Views

/-! ## The image of a module -/

/-- What user mode reads in the image of the {lit}`size` bytes at {lit}`a`. -/
def imageView (src : ByteMemory) (a size va : Nat) : Option UInt8 :=
  if va < 4096 * imagePages size then some (if va < size then src (a + va) else 0)
  else if 0xBFFFF000 ≤ va ∧ va < 0xC0000000 then some 0
  else none

/-- What {lit}`build_new_image` yields. -/
def builtImage (m : Memory) (a b : Nat) : Option (Nat × Memory) :=
  match m.buildNewImage a b with
  | (some image, m) => some (image.pdt, m)
  | (none, _) => none

section Image

variable {m : Memory} {a b d va : Nat} {phys : ByteMemory}

/-- User mode sees the image and nothing else. -/
theorem ImageOf.view {m₀ : Memory} {size : Nat} (h : ImageOf m₀ a size m.phys d)
    (hb : Built m₀ m d []) (hpde : m₀.pageDirectory 768 % 8 = 3) (hregion : Region m₀ a size)
    (hva : va < 2 ^ 32) : m.userByte (4096 * d) va = imageView m₀.phys a size va := by
  have hpages := h.pages
  unfold imageView
  by_cases hmod : va < 4096 * imagePages size
  · rw [if_pos hmod, h.userByte hregion hmod]
  rw [if_neg hmod]
  by_cases hstack : 0xBFFFF000 ≤ va ∧ va < 0xC0000000
  · rw [if_pos hstack, h.userByte_stack hstack.1 hstack.2]
  rw [if_neg hstack]
  by_cases hhigh : 0xC0000000 ≤ va
  · exact hb.userByte_high hpde hhigh hva
  · rw [userByte_pte, if_neg]
    rintro ⟨-, hread⟩
    refine h.others (va / 2 ^ 22) (va / 2 ^ 12 % 1024) (by omega) (by omega) (by omega) (by omega) ?_
    exact odd_of_userReadable hread

/-- Building an image fails for want of frames, or gives the view of the module. -/
theorem builtImage_cases (hok : MemOk m) (hpde : m.pageDirectory 768 % 8 = 3)
    (hlt : m.pageDirectory 768 < 2 ^ 32) (hcr3 : ¬ m.pfa.Free (m.cr3 / 4096))
    (hregion : Region m a (b - a)) :
    (m.builtImage a b = none ∧ (b ≤ a ∨ m.pfa.freeCount < imageDemand (b - a))) ∨
      ∃ x, m.builtImage a b = some x ∧ a < b ∧ imageDemand (b - a) ≤ m.pfa.freeCount ∧
        ∀ va, va < 2 ^ 32 → x.2.userByte x.1 va = imageView m.phys a (b - a) va := by
  unfold builtImage
  rcases buildNewImage_spec (a := a) (b := b) hok hlt hcr3 with
    ⟨d, m', hrun, hb, himage, hab, hcount, -⟩ | ⟨m', hrun, -, hwhy⟩
  · rw [hrun]
    exact .inr ⟨(4096 * d, m'), rfl, hab, by omega, fun va hva => himage.view hb hpde hregion hva⟩
  · rw [hrun]
    exact .inl ⟨rfl, hwhy⟩

/-- The image of a module does not depend on what free frames hold, and has the module's bytes
and zeros. -/
theorem sameView_builtImage (hok : MemOk m) (hpde : m.pageDirectory 768 % 8 = 3)
    (hlt : m.pageDirectory 768 < 2 ^ 32) (hcr3 : ¬ m.pfa.Free (m.cr3 / 4096))
    (hregion : Region m a (b - a)) (hagree : ∀ f, ¬ m.pfa.Free f → ByteMemory.BlockEq m.phys phys f) :
    SameView (m.builtImage a b) (({ m with phys := phys } : Memory).builtImage a b) ∧
      ShowsModule m.phys a (b - a) (m.builtImage a b) := by
  have hmodule : ∀ va, va < b - a → phys (a + va) = m.phys (a + va) := fun va hva =>
    (hagree _ (hregion.frames (a + va) (by omega) (by omega)) _ rfl).symm
  have hfirst := builtImage_cases (a := a) (b := b) hok hpde hlt hcr3 hregion
  have hsecond := builtImage_cases (m := { m with phys := phys }) (a := a) (b := b)
    ⟨hok.closed, hok.window⟩ hpde hlt hcr3 ⟨hregion.bound, hregion.frames⟩
  rcases hfirst with ⟨hnone, hwhy⟩ | ⟨x, hsome, hab, hdemand, hview⟩
  · rcases hsecond with ⟨hnone', -⟩ | ⟨y, -, hab, hdemand, -⟩
    · rw [hnone, hnone']
      exact ⟨trivial, fun x hx => by cases hx⟩
    · simp only at hdemand
      omega
  · rcases hsecond with ⟨-, hwhy⟩ | ⟨y, hsome', -, -, hview'⟩
    · simp only at hwhy
      omega
    · rw [hsome, hsome']
      constructor
      · intro va hva
        rw [hview va hva, hview' va hva]
        unfold imageView
        split
        · split
          · rename_i hlt'
            exact congrArg some (hmodule va hlt').symm
          · rfl
        · rfl
      · intro z hz va byte hva hbyte
        obtain rfl : x = z := Option.some.inj hz
        rw [hview va hva] at hbyte
        unfold imageView at hbyte
        split at hbyte
        · exact (Option.some.inj hbyte).symm
        · split at hbyte
          · rename_i hpage _
            have hsize : ¬ va < b - a := by
              unfold imagePages at hpage
              omega
            rw [if_neg hsize]
            exact (Option.some.inj hbyte).symm
          · cases hbyte

end Image

/-! ## The copy of a space -/

/-- What {lit}`clone_user_space` yields for the space with directory {lit}`pd`. -/
def clonedSpace (m : Memory) (pd : Nat) : Option (Nat × Memory) :=
  if (m.cloneUserSpace (4096 * pd)).1 = 0 then none else some (m.cloneUserSpace (4096 * pd))

section Copy

variable {m : Memory} {pd d va : Nat} {phys phys' : ByteMemory}

/-- User mode reads in the copy what it reads in the original. -/
theorem userByte_copied {m' : Memory}
    (h : ∀ i j, i < 768 → j < 1024 → PageCopied m.phys pd m'.phys d i j) (hva : va < 0xC0000000) :
    m'.userByte (4096 * d) va = m.userByte (4096 * pd) va := by
  have hcopy := h (va / 2 ^ 22) (va / 2 ^ 12 % 1024) (by omega) (by omega)
  rw [userByte_pte, userByte_pte]
  by_cases hodd : pte m.phys pd (va / 2 ^ 22) (va / 2 ^ 12 % 1024) % 2 = 1
  · have hread : ∀ e e' : Nat, e % 4096 = e' % 4096 → userReadable e = userReadable e' := by
      intro e e' he
      have hmod : e % 8 = e' % 8 := by omega
      simp only [userReadable, hmod]
    rw [hread _ _ (hcopy.pdeFlags hodd), hread _ _ (hcopy.pteFlags hodd),
      hcopy.bytes hodd (va % 4096) (Nat.mod_lt _ (by norm_num))]
  · have hodd' : ¬ pte m'.phys d (va / 2 ^ 22) (va / 2 ^ 12 % 1024) % 2 = 1 := fun h' =>
      hodd (hcopy.mapped.1 h')
    rw [if_neg fun h' => not_userReadable_of_even hodd' h'.2,
      if_neg fun h' => not_userReadable_of_even hodd h'.2]

/-- The entries and pages of a settled space are the same in both memories. -/
theorem Settled.entryKept (h : Settled m pd)
    (hagree : ∀ f, ¬ m.pfa.Free f → ByteMemory.BlockEq m.phys phys f) {i j : Nat} (hi : i < 768)
    (hj : j < 1024) : EntryKept m.phys phys pd i j := by
  have hdir := hagree pd (h.frames .dir pd rfl)
  have hpde := (hdir.word (show i < 1024 by omega)).symm
  have htable : ∀ hodd : m.phys.word pd i % 2 = 1,
      ByteMemory.BlockEq m.phys phys (m.phys.word pd i / 4096) := fun hodd =>
    hagree _ (h.frames (.table i) _ ((slots_table m pd hi).trans (entryFrame_of_odd hodd)))
  refine ⟨hpde, ?_, fun hodd => ?_⟩
  · unfold pte
    rw [hpde]
    split
    · rename_i hodd
      exact ((htable hodd).word hj).symm
    · rfl
  · exact hagree _ (h.frames (.page i j) _ ((slots_page m pd hi hj).trans (entryFrame_of_odd hodd)))

/-- What a clone needs depends on the entries of the parent only. -/
theorem cloneDemand_congr (h : ∀ i j, i < 768 → j < 1024 → EntryKept phys phys' pd i j) :
    cloneDemand phys' pd = cloneDemand phys pd := by
  have htables : ∀ k, k ≤ 768 → tableCount phys' pd k = tableCount phys pd k := by
    intro k hk
    induction k with
    | zero => rfl
    | succ k ih =>
        rw [tableCount_succ, tableCount_succ, ih (by omega), (h k 0 (by omega) (by omega)).pde]
  have hpages : ∀ n, n ≤ 1024 * 768 → pageCount phys' pd n = pageCount phys pd n := by
    intro n hn
    induction n with
    | zero => rfl
    | succ n ih =>
        have hpte := (h (n / 1024) (n % 1024) (by omega) (by omega)).pte
        rw [pageCount, pageCount, Nat.count_succ, Nat.count_succ]
        simp only [hpte]
        rw [← pageCount, ← pageCount, ih (by omega)]
  rw [cloneDemand, cloneDemand, htables 768 le_rfl, hpages (1024 * 768) le_rfl]

/-- Cloning a space fails for want of frames, or gives the view of the parent. -/
theorem clonedSpace_cases (hok : MemOk m) (hpde : m.pageDirectory 768 % 8 = 3)
    (hlt : m.pageDirectory 768 < 2 ^ 32) (hcr3 : ¬ m.pfa.Free (m.cr3 / 4096)) (hp : Settled m pd) :
    (m.clonedSpace pd = none ∧ m.pfa.freeCount < cloneDemand m.phys pd) ∨
      ∃ x, m.clonedSpace pd = some x ∧ cloneDemand m.phys pd ≤ m.pfa.freeCount ∧
        ∀ va, va < 2 ^ 32 → x.2.userByte x.1 va =
          if va < 0xC0000000 then m.userByte (4096 * pd) va else none := by
  unfold clonedSpace
  rcases cloneUserSpace_spec hok hlt hp hcr3 with
    ⟨d, m', hrun, hd, hb, hcopied, hcount, -⟩ | ⟨m', hrun, -, hwhy⟩
  · rw [hrun, if_neg (show ¬ 4096 * d = 0 by omega)]
    refine .inr ⟨(4096 * d, m'), rfl, by omega, fun va hva => ?_⟩
    by_cases huser : va < 0xC0000000
    · rw [if_pos huser]
      exact userByte_copied hcopied huser
    · rw [if_neg huser]
      exact hb.userByte_high hpde (by omega) hva
  · rw [hrun, if_pos rfl]
    exact .inl ⟨rfl, hwhy⟩

/-- The copy of a space does not depend on what free frames hold. -/
theorem sameView_clonedSpace (hok : MemOk m) (hpde : m.pageDirectory 768 % 8 = 3)
    (hlt : m.pageDirectory 768 < 2 ^ 32) (hcr3 : ¬ m.pfa.Free (m.cr3 / 4096)) (hp : Settled m pd)
    (hagree : ∀ f, ¬ m.pfa.Free f → ByteMemory.BlockEq m.phys phys f) :
    SameView (m.clonedSpace pd) (({ m with phys := phys } : Memory).clonedSpace pd) := by
  have hkept : ∀ i j, i < 768 → j < 1024 → EntryKept m.phys phys pd i j := fun i j hi hj =>
    hp.entryKept hagree hi hj
  have hdemand := cloneDemand_congr hkept
  have hp' : Settled { m with phys := phys } pd := by
    refine ⟨hp.bound, fun s f hs => hp.frames s f ?_⟩
    rw [← hs]
    exact (congrFun (slotFrame_congr (hagree pd (hp.frames .dir pd rfl)) fun i t ht =>
      hagree t (hp.frames (.table i) t ht)) s).symm
  have hfirst := clonedSpace_cases hok hpde hlt hcr3 hp
  have hsecond := clonedSpace_cases (m := { m with phys := phys }) ⟨hok.closed, hok.window⟩ hpde hlt
    hcr3 hp'
  simp only [hdemand] at hsecond
  rcases hfirst with ⟨hnone, hwhy⟩ | ⟨x, hsome, hfits, hview⟩
  · rcases hsecond with ⟨hnone', -⟩ | ⟨y, -, hfits, -⟩
    · rw [hnone, hnone']
      trivial
    · omega
  · rcases hsecond with ⟨-, hwhy⟩ | ⟨y, hsome', -, hview'⟩
    · omega
    · rw [hsome, hsome']
      intro va hva
      rw [hview va hva, hview' va hva]
      by_cases huser : va < 0xC0000000
      · have hentry := hkept (va / 2 ^ 22) (va / 2 ^ 12 % 1024) (by omega) (by omega)
        rw [if_pos huser, if_pos huser, userByte_pte, userByte_pte]
        simp only [hentry.pde, hentry.pte]
        by_cases hread : userReadable (pte m.phys pd (va / 2 ^ 22) (va / 2 ^ 12 % 1024))
        · have hbytes := hentry.bytes (odd_of_userReadable hread)
          rw [hbytes _ (by omega)]
        · rw [if_neg fun h => hread h.2, if_neg fun h => hread h.2]
      · rw [if_neg huser, if_neg huser]

end Copy

end Memory

namespace Kernel

/-! ## A process made at boot -/

/-- What {lit}`create_pcb_grub_modules` yields. -/
def bootedSpace (L : Layout) (k : Kernel) (modStart modEnd : Nat) : Option (Nat × Memory) :=
  (k.createPcbGrubModules L modStart modEnd).bind fun r =>
    if r.1 = 0 then none else some ((r.2.pcbs r.1).pdt, r.2.store.mem)

/-- The frames that are drawn before the table of the code: those of the heap, and the
directory. -/
def draws (L : Layout) (s : Store) : Nat :=
  pcbPages L s + stackPages L s + 1

/-- The frame that becomes the second page of the code. -/
def secondFrame (L : Layout) (s : Store) : Nat :=
  s.mem.pfa.freeFrames.getD (draws L s + 2) 0

/-- The frame that becomes the page of the stack. -/
def stackFrame (L : Layout) (s : Store) : Nat :=
  s.mem.pfa.freeFrames.getD (draws L s + 4) 0

/-- What user mode reads in a process made at boot. -/
def bootView (L : Layout) (s : Store) (modStart modEnd va : Nat) : Option UInt8 :=
  if va < 4096 then
    some (if va < Memory.copySize modStart modEnd then s.mem.phys (modStart + va) else 0)
  else if va < 8192 then some (s.mem.phys (4096 * secondFrame L s + va % 4096))
  else if 0xBFFFF000 ≤ va ∧ va < 0xC0000000 then
    some (s.mem.phys (4096 * stackFrame L s + va % 4096))
  else none

section Boot

variable {L : Layout} {R : Nat → Prop} {safe : Prop} {c : Nat} {bs : List (Nat × Nat)}
  {ds : List Nat} {k k' : Kernel} {m₀ : Memory} {modStart modEnd pcb d base va : Nat}
  {x : BootFrames}

/-- The five draws start behind the frames that were drawn before. -/
theorem Made.freeFrames_eq (h : Made L R c bs ds k modStart modEnd k' m₀ pcb d base x) :
    m₀.pfa.freeFrames = k.store.mem.pfa.freeFrames.drop (draws L k.store) := by
  have hcount := h.count
  have hcurrent := h.current
  rw [List.suffix_iff_eq_drop.1 h.frees, Pfa.length_freeFrames, Pfa.length_freeFrames, draws]
  congr 1
  omega

/-- The draws take the next free frames. -/
theorem Made.draw_eq (h : Made L R c bs ds k modStart modEnd k' m₀ pcb d base x) (i : Nat)
    (hi : i < x.list.length) :
    x.list[i] = k.store.mem.pfa.freeFrames.getD (draws L k.store + i) 0 := by
  have hframes := h.space.drawn.frames
  have hget : x.list[i]? = some (m₀.pfa.freeFrames.getD i 0) := by
    rw [hframes, List.getElem?_map, List.getElem?_range hi]
    rfl
  rw [List.getElem?_eq_getElem hi, Option.some.injEq, h.freeFrames_eq] at hget
  rw [hget, List.getD_eq_getElem?_getD, List.getElem?_drop, ← List.getD_eq_getElem?_getD]

/-- Which frame the second page gets. -/
theorem Made.page1_eq (h : Made L R c bs ds k modStart modEnd k' m₀ pcb d base x) :
    x.page1 = secondFrame L k.store :=
  h.draw_eq 2 (by simp [BootFrames.list])

/-- Which frame the stack page gets. -/
theorem Made.stack_eq (h : Made L R c bs ds k modStart modEnd k' m₀ pcb d base x) :
    x.stack = stackFrame L k.store :=
  h.draw_eq 4 (by simp [BootFrames.list])

/-- There is a table for the stack. -/
theorem Made.stackTable_ne_iff (h : Made L R c bs ds k modStart modEnd k' m₀ pcb d base x)
    (hok : Memory.MemOk k.store.mem) :
    x.stackTable ≠ 0 ↔ draws L k.store + 4 ≤ k.store.mem.pfa.freeCount := by
  have hdraw : x.stackTable = _ := h.draw_eq 3 (by simp [BootFrames.list])
  rw [hdraw, ← Pfa.length_freeFrames]
  by_cases hlt : draws L k.store + 3 < k.store.mem.pfa.freeFrames.length
  · refine ⟨fun _ => hlt, fun _ => ?_⟩
    rw [List.getD_eq_getElem _ _ hlt]
    exact (hok.managed (Memory.Free.managed (Pfa.mem_freeFrames.1 (List.getElem_mem hlt)))).1
  · rw [List.getD_eq_default _ _ (by omega)]
    constructor
    · intro hne
      exact absurd rfl hne
    · intro hle
      omega

/-- The second page of the code and the page of the stack are as they were. -/
theorem Made.untouched (h : Made L R c bs ds k modStart modEnd k' m₀ pcb d base x)
    (he : x.stackTable ≠ 0) :
    ByteMemory.BlockEq k.store.mem.phys k'.store.mem.phys x.page1 ∧
      ByteMemory.BlockEq k.store.mem.phys k'.store.mem.phys x.stack := by
  obtain ⟨⟨-, -, hdc, -, hdg⟩, ha, hb, hc, hg, hab, hbc, hce, -⟩ := h.space.frames.facts
  have hc0 : x.page1 ≠ 0 := fun h0 => he (hce h0)
  have hb0 : x.page0 ≠ 0 := fun h0 => hc0 (hbc h0)
  have ha0 : x.table ≠ 0 := fun h0 => hb0 (hab h0)
  constructor
  · exact (h.kept _ hdc.symm).trans (h.space.loaded.others _ hdc.symm (ha ha0).2.1.symm
      (hb hb0).1.symm (hc hc0).1)
  · exact (h.kept _ hdg.symm).trans (h.space.loaded.others _ hdg.symm (ha ha0).2.2.2.symm
      (hb hb0).2.2.symm (hg he).symm)

/-- A module in reserved frames is apart from the frames of the process. -/
theorem Made.module_apart (h : Made L R c bs ds k modStart modEnd k' m₀ pcb d base x)
    (ha : x.table ≠ 0) (hb : x.page0 ≠ 0)
    (hmodule : ∀ i, i < Memory.copySize modStart modEnd →
      ¬ k.store.mem.pfa.Free ((modStart + i) / 4096)) (i : Nat)
    (hi : i < Memory.copySize modStart modEnd) :
    (modStart + i) / 4096 ∉ [d, x.table, x.page0] := by
  have hfree := hmodule i hi
  simp only [List.mem_cons, List.not_mem_nil, or_false, not_or]
  refine ⟨fun heq => hfree ?_, fun heq => hfree ?_, fun heq => hfree ?_⟩
  · rw [heq]
    exact h.free
  · rw [heq]
    exact h.drawn_free (by simp [BootFrames.list]) ha
  · rw [heq]
    exact h.drawn_free (by simp [BootFrames.list]) hb

/-- What user mode reads through the directory of a new process. -/
theorem Made.view (h : Made L R c bs ds k modStart modEnd k' m₀ pcb d base x)
    (he : x.stackTable ≠ 0)
    (hmodule : ∀ i, i < Memory.copySize modStart modEnd →
      ¬ k.store.mem.pfa.Free ((modStart + i) / 4096)) (hva : va < 2 ^ 32) :
    k'.store.mem.userByte (4096 * d) va = bootView L k.store modStart modEnd va := by
  obtain ⟨-, -, -, -, -, hab, hbc, hce, -⟩ := h.space.frames.facts
  have hc0 : x.page1 ≠ 0 := fun h0 => he (hce h0)
  have hb0 : x.page0 ≠ 0 := fun h0 => hc0 (hbc h0)
  have ha0 : x.table ≠ 0 := fun h0 => hb0 (hab h0)
  have hwords := h.space.words ha0
  obtain ⟨hsecond, hstack⟩ := h.untouched he
  rw [h.page1_eq] at hsecond
  rw [h.stack_eq] at hstack
  have hnone : ¬ (userReadable (k'.store.mem.phys.word d (va / 2 ^ 22)) ∧
      userReadable (Memory.pte k'.store.mem.phys d (va / 2 ^ 22) (va / 2 ^ 12 % 1024))) →
      k'.store.mem.userByte (4096 * d) va = none := by
    intro hread
    rw [Memory.userByte_pte, if_neg hread]
  have hpage : ∀ i j t f, va / 2 ^ 22 = i → va / 2 ^ 12 % 1024 = j →
      k'.store.mem.phys.word d i = 4096 * t + 7 → k'.store.mem.phys.word t j = 4096 * f + 7 →
      k'.store.mem.userByte (4096 * d) va = some (k'.store.mem.phys (4096 * f + va % 4096)) := by
    intro i j t f hi hj hdir htable
    have ht : (4096 * t + 7) / 4096 = t := by omega
    have hf : (4096 * f + 7) / 4096 = f := by omega
    rw [Memory.userByte_eq (4096 * t + 7) (4096 * f + 7) (by rw [hi, hdir]) (by omega)
      (by rw [ht, hj, htable]) (by omega), hf]
  have heven : ∀ e : Nat, ¬ e % 2 = 1 → ¬ userReadable e := fun e => Memory.not_userReadable_of_even
  unfold bootView
  by_cases hcode : va < 4096
  · rw [if_pos hcode, hpage 0 0 x.table x.page0 (by omega) (by omega) hwords.table hwords.page0,
      Nat.mod_eq_of_lt hcode, h.space.bytes hb0 (h.module_apart ha0 hb0 hmodule) va hcode]
    split
    · rename_i hsize
      have hdir : (modStart + va) / 4096 ≠ d := fun heq =>
        hmodule va hsize (by rw [heq]; exact h.free)
      rw [h.kept _ hdir _ rfl]
    · rfl
  rw [if_neg hcode]
  by_cases hsec : va < 8192
  · rw [if_pos hsec, hpage 0 1 x.table x.page1 (by omega) (by omega) hwords.table hwords.page1,
      h.page1_eq, hsecond _ (by omega)]
  rw [if_neg hsec]
  by_cases hst : 0xBFFFF000 ≤ va ∧ va < 0xC0000000
  · rw [if_pos hst, hpage 767 1023 x.stackTable x.stack (by omega) (by omega) hwords.stackTable
      hwords.stack, h.stack_eq, hstack _ (by omega)]
  rw [if_neg hst]
  have hspaces := h.hold.store.spaces
  have hspace := hspaces.space d List.mem_cons_self
  by_cases hhigh : 0xC0000000 ≤ va
  · exact Memory.userByte_high (by rw [hspace.kernel]; exact hspaces.pde.2) hspace.high hhigh hva
  -- What is left of the user's part has no entry.
  refine hnone fun hread => ?_
  by_cases hfirst : va / 2 ^ 22 = 0
  · refine heven _ ?_ hread.2
    rw [Memory.pte, hfirst, hwords.table, if_pos (by omega),
      show (4096 * x.table + 7) / 4096 = x.table by omega,
      h.space.loaded.table ha0 _ (by omega), if_neg (by omega), if_neg (by omega)]
    norm_num
  · by_cases hlast : va / 2 ^ 22 = 767
    · refine heven _ ?_ hread.2
      rw [Memory.pte, hlast, hwords.stackTable, if_pos (by omega),
        show (4096 * x.stackTable + 7) / 4096 = x.stackTable by omega,
        h.space.loaded.stackTable _ (by omega), if_neg (by omega)]
      norm_num
    · refine heven _ ?_ hread.1
      rw [h.space.loaded.dir _ (by omega), if_neg hfirst, if_neg hlast]
      exact h.space.empty _ (by omega) (by omega)

/-- Without a frame for the stack's table, user mode reads that table as its stack: frame 0,
whose last entry maps frame 0. -/
theorem Made.view_starved (h : Made L R c bs ds k modStart modEnd k' m₀ pcb d base x)
    (he : x.stackTable = 0) : k'.store.mem.userByte (4096 * d) 0xBFFFFFFC = some 7 := by
  obtain ⟨-, -, -, -, -, -, -, -, heg⟩ := h.space.frames.facts
  have hdir := h.space.loaded.dir 767 (by norm_num)
  have htable := h.space.loaded.stackTable 1023 (by norm_num)
  rw [if_neg (by norm_num), if_pos rfl, he] at hdir
  rw [if_pos rfl, he, heg he] at htable
  have hbyte : (k'.store.mem.phys (4096 * 0 + 4 * 1023)).toNat = 7 := by
    rw [ByteMemory.toNat_first_byte, htable]
  have haddr : (4096 * ((4096 * 0 + 7) / 4096) + 0xBFFFFFFC % 4096 : Nat) = 4096 * 0 + 4 * 1023 := by
    norm_num
  have hentry : (0xBFFFFFFC : Nat) / 2 ^ 22 = 767 := by norm_num
  have hindex : (0xBFFFFFFC : Nat) / 2 ^ 12 % 1024 = 1023 := by norm_num
  rw [Memory.userByte_eq (4096 * 0 + 7) (4096 * 0 + 7) (by rw [hentry, hdir]) (by norm_num)
    (by rw [hindex]; exact htable) (by norm_num), haddr]
  exact congrArg some (UInt8.toNat_inj.1 hbyte)

/-- A creation that fails does not fit. -/
theorem MakeFails.not_fits {s s' : Store} (h : MakeFails L s s') : ¬ MakeFits L s := by
  intro hfits
  cases h with
  | pcb short => exact hfits.pcb short
  | directory pcb short =>
      have := hfits.frame
      omega
  | stack pcb frame short => exact hfits.stack short

/-- Whether a creation fits does not depend on the bytes of memory. -/
theorem makeFits_withPhys {phys : ByteMemory} :
    MakeFits L (k.withPhys phys).store ↔ MakeFits L k.store :=
  ⟨fun h => ⟨h.pcb, h.frame, h.stack⟩, fun h => ⟨h.pcb, h.frame, h.stack⟩⟩

/-- What a call yields, whatever memory holds. -/
theorem bootedSpace_cases (h : StoreOk L R safe k.store ds) (phys : ByteMemory)
    (hmodule : ∀ i, i < Memory.copySize modStart modEnd →
      ¬ k.store.mem.pfa.Free ((modStart + i) / 4096)) :
    ((k.withPhys phys).bootedSpace L modStart modEnd = none ∧
        ¬ (MakeFits L k.store ∧ ¬ Memory.ReadFaults modStart modEnd)) ∨
      ∃ y, (k.withPhys phys).bootedSpace L modStart modEnd = some y ∧
        (MakeFits L k.store ∧ ¬ Memory.ReadFaults modStart modEnd) ∧
        ((draws L k.store + 4 ≤ k.store.mem.pfa.freeCount ∧ ∀ va, va < 2 ^ 32 →
            y.2.userByte y.1 va = bootView L (k.withPhys phys).store modStart modEnd va) ∨
          k.store.mem.pfa.freeCount < draws L k.store + 4 ∧
            y.2.userByte y.1 0xBFFFFFFC = some 7) := by
  have hholding := holding_of_store h phys (Plenty (k.withPhys phys).store)
  have hspec := createPcbGrubModules_spec (k := k.withPhys phys) hholding modStart modEnd
  unfold bootedSpace
  generalize (k.withPhys phys).createPcbGrubModules L modStart modEnd = r at hspec
  cases hspec with
  | fault high fits faults => exact .inl ⟨rfl, fun hcan => hcan.2 faults⟩
  | failed hold beside short fails => exact .inl ⟨rfl, fun hcan => fails.not_fits (makeFits_withPhys.2 hcan.1)⟩
  | @made k' m₀ pcb d base x made =>
      have hpdt : (k'.pcbs pcb).pdt = 4096 * d := by
        rw [made.pcb_eq]
        rfl
      refine .inr ⟨((k'.pcbs pcb).pdt, k'.store.mem), ?_, ⟨makeFits_withPhys.1 made.fits, made.readable⟩, ?_⟩
      · rw [Option.bind_some, if_neg made.pcb_ne]
      · have htable := made.stackTable_ne_iff hholding.store.spaces.ok
        simp only [hpdt]
        by_cases he : x.stackTable = 0
        · exact .inr ⟨not_le.1 fun hle => htable.2 hle he, made.view_starved he⟩
        · exact .inl ⟨htable.1 he, fun va hva => made.view he hmodule hva⟩

end Boot

/-! ## The three constructions -/

/-- A new process shows nothing that its frames held before: in the memory of {lit}`k` and with
the contents {lit}`phys` each construction shows the same bytes, those of the module and
zeros; a fork shows what its parent shows. -/
structure NoStale (L : Layout) (ds : List Nat) (k : Kernel) (phys : ByteMemory)
    (modStart modEnd : Nat) : Prop where
  boot : Memory.SameView (k.bootedSpace L modStart modEnd)
    ((k.withPhys phys).bootedSpace L modStart modEnd)
  bootModule : Memory.ShowsModule k.store.mem.phys modStart (Memory.copySize modStart modEnd)
    (k.bootedSpace L modStart modEnd)
  exec : Memory.SameView (k.store.mem.builtImage modStart modEnd)
    ((k.withPhys phys).store.mem.builtImage modStart modEnd)
  execModule : Memory.ShowsModule k.store.mem.phys modStart (modEnd - modStart)
    (k.store.mem.builtImage modStart modEnd)
  fork : ∀ d ∈ ds, Memory.SameView (k.store.mem.clonedSpace d)
    ((k.withPhys phys).store.mem.clonedSpace d)

/-- When a process is made at boot, there is a frame for each of its tables, and the two frames
that are not written hold zeros in both memories. -/
def BootClears (L : Layout) (s : Store) (phys : ByteMemory) (modStart modEnd : Nat) : Prop :=
  MakeFits L s → ¬ Memory.ReadFaults modStart modEnd →
    draws L s + 4 ≤ s.mem.pfa.freeCount ∧
      ∀ f ∈ [secondFrame L s, stackFrame L s], ∀ o, o < 4096 →
        s.mem.phys (4096 * f + o) = 0 ∧ phys (4096 * f + o) = 0

section NoStale

variable {L : Layout} {R : Nat → Prop} {safe : Prop} {ds : List Nat} {k : Kernel} {s : Store}
  {phys : ByteMemory} {modStart modEnd : Nat}

/-- The second page shows what its frame had before. -/
theorem bootView_second (L : Layout) (s : Store) (modStart modEnd : Nat) {o : Nat} (ho : o < 4096) :
    bootView L s modStart modEnd (4096 + o) =
      some (s.mem.phys (4096 * secondFrame L s + o)) := by
  rw [bootView, if_neg (by omega), if_pos (by omega), show (4096 + o) % 4096 = o by omega]

/-- The stack page shows what its frame had before. -/
theorem bootView_stack (L : Layout) (s : Store) (modStart modEnd : Nat) {o : Nat} (ho : o < 4096) :
    bootView L s modStart modEnd (0xBFFFF000 + o) =
      some (s.mem.phys (4096 * stackFrame L s + o)) := by
  rw [bootView, if_neg (by omega), if_neg (by omega), if_pos (by omega),
    show (0xBFFFF000 + o) % 4096 = o by omega]

/-- With zeros in the two frames that are not written, the module's bytes are all that there
is. -/
theorem bootView_cleared (modStart modEnd : Nat)
    (hclear : ∀ f ∈ [secondFrame L s, stackFrame L s], ∀ o, o < 4096 →
      s.mem.phys (4096 * f + o) = 0) (va : Nat) :
    bootView L s modStart modEnd va =
      if va < 8192 ∨ 0xBFFFF000 ≤ va ∧ va < 0xC0000000 then
        some (if va < Memory.copySize modStart modEnd then s.mem.phys (modStart + va) else 0)
      else none := by
  have hsize : Memory.copySize modStart modEnd ≤ 4096 := Nat.min_le_left _ _
  have hmod : va % 4096 < 4096 := Nat.mod_lt _ (by norm_num)
  unfold bootView
  by_cases hfirst : va < 4096
  · rw [if_pos hfirst, if_pos (show va < 8192 ∨ _ from .inl (by omega))]
  rw [if_neg hfirst, if_neg (show ¬ va < Memory.copySize modStart modEnd by omega)]
  by_cases hsecond : va < 8192
  · rw [if_pos hsecond, if_pos (.inl hsecond), hclear _ (by simp) _ hmod]
  rw [if_neg hsecond]
  by_cases hstack : 0xBFFFF000 ≤ va ∧ va < 0xC0000000
  · rw [if_pos hstack, if_pos (.inr hstack), hclear _ (by simp) _ hmod]
  · rw [if_neg hstack, if_neg (by omega)]

/-- The boot part fails unless the two frames hold zeros. -/
theorem bootClears_of_noStale (h : StoreOk L R safe k.store ds)
    (hmodule : ∀ i, i < Memory.copySize modStart modEnd →
      ¬ k.store.mem.pfa.Free ((modStart + i) / 4096))
    (hsame : Memory.SameView (k.bootedSpace L modStart modEnd)
      ((k.withPhys phys).bootedSpace L modStart modEnd))
    (hshows : Memory.ShowsModule k.store.mem.phys modStart (Memory.copySize modStart modEnd)
      (k.bootedSpace L modStart modEnd)) : BootClears L k.store phys modStart modEnd := by
  intro hfits hread
  have hsize : Memory.copySize modStart modEnd ≤ 4096 := Nat.min_le_left _ _
  rcases bootedSpace_cases h k.store.mem.phys hmodule with
    ⟨-, hnot⟩ | ⟨y, hy, -, hyview⟩
  · exact absurd ⟨hfits, hread⟩ hnot
  rcases bootedSpace_cases h phys hmodule with ⟨-, hnot⟩ | ⟨z, hz, -, hzview⟩
  · exact absurd ⟨hfits, hread⟩ hnot
  change k.bootedSpace L modStart modEnd = some y at hy
  rw [hy, hz] at hsame
  rw [hy] at hshows
  have hzero : ∀ va b, 4096 ≤ va → va < 2 ^ 32 → y.2.userByte y.1 va = some b → b = 0 := by
    intro va b hlo hva hb
    have hshown := hshows y rfl va b hva hb
    rwa [if_neg (by omega)] at hshown
  rcases hyview with ⟨hframes, hyview⟩ | ⟨-, hbyte⟩
  · rcases hzview with ⟨-, hzview⟩ | ⟨hfew, -⟩
    · refine ⟨hframes, fun f hf o ho => ?_⟩
      -- An address of the page in both spaces.
      have hbyte : ∃ va, 4096 ≤ va ∧ va < 2 ^ 32 ∧
          bootView L k.store modStart modEnd va = some (k.store.mem.phys (4096 * f + o)) ∧
          bootView L (k.withPhys phys).store modStart modEnd va = some (phys (4096 * f + o)) := by
        simp only [List.mem_cons, List.not_mem_nil, or_false] at hf
        rcases hf with rfl | rfl
        · exact ⟨4096 + o, by omega, by omega, bootView_second L k.store _ _ ho,
            bootView_second L (k.withPhys phys).store _ _ ho⟩
        · exact ⟨0xBFFFF000 + o, by omega, by omega, bootView_stack L k.store _ _ ho,
            bootView_stack L (k.withPhys phys).store _ _ ho⟩
      obtain ⟨va, hlo, hva, hfirst, hsecond⟩ := hbyte
      have hy0 := hzero va _ hlo hva ((hyview va hva).trans hfirst)
      have hz0 := hzero va _ hlo hva ((hsame va hva).trans ((hzview va hva).trans hsecond))
      exact ⟨hy0, hz0⟩
    · omega
  · have hseven := hzero 0xBFFFFFFC 7 (by norm_num) (by norm_num) hbyte
    exact absurd hseven (by decide)

/-- When the two frames hold zeros, boot shows the module and zeros. -/
theorem BootClears.sameView (hclear : BootClears L k.store phys modStart modEnd)
    (h : StoreOk L R safe k.store ds)
    (hmodule : ∀ i, i < Memory.copySize modStart modEnd →
      ¬ k.store.mem.pfa.Free ((modStart + i) / 4096))
    (hagree : ∀ i, i < Memory.copySize modStart modEnd →
      phys (modStart + i) = k.store.mem.phys (modStart + i)) :
    Memory.SameView (k.bootedSpace L modStart modEnd)
        ((k.withPhys phys).bootedSpace L modStart modEnd) ∧
      Memory.ShowsModule k.store.mem.phys modStart (Memory.copySize modStart modEnd)
        (k.bootedSpace L modStart modEnd) := by
  rcases bootedSpace_cases h k.store.mem.phys hmodule with
    ⟨hnone, hnot⟩ | ⟨y, hy, hcan, hyview⟩
  · change k.bootedSpace L modStart modEnd = none at hnone
    rcases bootedSpace_cases h phys hmodule with ⟨hnone', -⟩ | ⟨z, -, hcan, -⟩
    · rw [hnone, hnone']
      exact ⟨trivial, fun y hy => by cases hy⟩
    · exact absurd hcan hnot
  · change k.bootedSpace L modStart modEnd = some y at hy
    obtain ⟨hframes, hzeros⟩ := hclear hcan.1 hcan.2
    rcases bootedSpace_cases h phys hmodule with ⟨-, hnot⟩ | ⟨z, hz, -, hzview⟩
    · exact absurd hcan hnot
    rcases hyview with ⟨-, hyview⟩ | ⟨hfew, -⟩
    swap
    · omega
    rcases hzview with ⟨-, hzview⟩ | ⟨hfew, -⟩
    swap
    · omega
    have hfirst := bootView_cleared (s := k.store) modStart modEnd
      fun f hf o ho => (hzeros f hf o ho).1
    have hsecond := bootView_cleared (s := (k.withPhys phys).store) modStart modEnd
      fun f hf o ho => (hzeros f hf o ho).2
    rw [hy, hz]
    constructor
    · intro va hva
      refine (hyview va hva).trans (Eq.trans ?_ (hzview va hva).symm)
      refine (hfirst va).trans (Eq.trans ?_ (hsecond va).symm)
      split
      · split
        · rename_i hlt
          exact congrArg some (hagree va hlt).symm
        · rfl
      · rfl
    · intro w hw va b hva hb
      obtain rfl : y = w := Option.some.inj hw
      have hview := ((hyview va hva).trans (hfirst va)).symm.trans hb
      split at hview
      · exact (Option.some.inj hview).symm
      · cases hview

/-- A new process sees no stale memory exactly when the frames that
{lit}`create_pcb_grub_modules` maps and does not write hold zeros. -/
theorem no_stale_memory_iff (h : StoreOk L R safe k.store ds)
    (hcr3 : ¬ k.store.mem.pfa.Free (k.store.mem.cr3 / 4096)) (hle : modStart ≤ modEnd)
    (hregion : Memory.Region k.store.mem modStart (modEnd - modStart))
    (hagree : ∀ f, ¬ k.store.mem.pfa.Free f → ByteMemory.BlockEq k.store.mem.phys phys f) :
    NoStale L ds k phys modStart modEnd ↔ BootClears L k.store phys modStart modEnd := by
  have hspaces := h.spaces
  have hsize : Memory.copySize modStart modEnd ≤ modEnd - modStart := by
    simp only [Memory.copySize, u32]
    omega
  have hmodule : ∀ i, i < Memory.copySize modStart modEnd →
      ¬ k.store.mem.pfa.Free ((modStart + i) / 4096) := fun i hi =>
    hregion.frames _ (by omega) (by omega)
  constructor
  · intro hstale
    exact bootClears_of_noStale h hmodule hstale.boot hstale.bootModule
  · intro hclear
    obtain ⟨hboot, hbootModule⟩ := hclear.sameView h hmodule fun i hi =>
      (hagree _ (hmodule i hi) _ rfl).symm
    obtain ⟨hexec, hexecModule⟩ := Memory.sameView_builtImage (a := modStart) (b := modEnd)
      hspaces.ok hspaces.pde.2 hspaces.pde.1 hcr3 hregion hagree
    exact ⟨hboot, hbootModule, hexec, hexecModule, fun d hd =>
      Memory.sameView_clonedSpace hspaces.ok hspaces.pde.2 hspaces.pde.1 hcr3 (hspaces.settled hd)
        hagree⟩

end NoStale

/-- Memory with ones in the free frame number {lit}`n` and zeros everywhere else. -/
def dirtied (p : Pfa) (n : Nat) : ByteMemory := fun a =>
  if a / 4096 = p.freeFrames.getD n 0 then 1 else 0

/-- The memories of the two runs agree on the frames in use. -/
theorem dirtied_agrees {p : Pfa} {n f : Nat} (hn : n < p.freeCount) (hf : ¬ p.Free f) :
    ByteMemory.BlockEq (fun _ => 0) (dirtied p n) f := by
  intro a ha
  rw [← Pfa.length_freeFrames] at hn
  refine (if_neg ?_).symm
  rw [ha, List.getD_eq_getElem _ _ hn]
  rintro rfl
  exact hf (Pfa.mem_freeFrames.1 (List.getElem_mem hn))

/-- The free frames are distinct. -/
theorem dirtied_apart (p : Pfa) (i : Nat) {o : Nat} (hi : 0 < i) (hlt : i < p.freeCount)
    (ho : o < 4096) : dirtied p 0 (4096 * p.freeFrames.getD i 0 + o) = 0 := by
  have hnodup : p.freeFrames.Nodup := (List.nodup_range' 1).filter _
  rw [← Pfa.length_freeFrames] at hlt
  refine if_neg ?_
  rw [show (4096 * p.freeFrames.getD i 0 + o) / 4096 = p.freeFrames.getD i 0 by omega,
    List.getD_eq_getElem _ _ hlt, List.getD_eq_getElem _ _ (by omega)]
  intro heq
  have := hnodup.getElem_inj_iff.1 heq
  omega

/-- The first module of {lit}`starvedBoot` is in a frame that is in use. -/
theorem starvedBoot_module {a : Nat} (hlo : 4096 * 526 ≤ a) (hhi : a < 4096 * 527) :
    ¬ (bootStore sampleLayout starvedBoot).mem.pfa.Free (a / 4096) := by
  intro hf
  have hused : (bootPfa sampleLayout starvedBoot.mods).used 526 = true :=
    (used_bootPfa _ _ 526).2 (.inr ⟨_, List.mem_cons_self, 0, by simp, by simp⟩)
  have hfree := hf.2.2
  rw [show a / 4096 = 526 by omega] at hfree
  exact absurd (hused.symm.trans hfree) (by decide)

/-- The memory of this boot is blank. -/
theorem starvedBoot_phys : (bootStore sampleLayout starvedBoot).mem.phys = fun _ => 0 :=
  rfl

/-- The loaded directory is in use. -/
theorem starvedBoot_directory : ¬ (bootStore sampleLayout starvedBoot).mem.pfa.Free
    ((bootStore sampleLayout starvedBoot).mem.cr3 / 4096) := by
  intro hf
  have hstart := (bootPfa_frame sampleLayout starvedBoot.mods).1
  have halign : pageAlignUp sampleLayout.kernelPhysicalEnd = 0x200000 := by decide
  have hlow : (bootPfa sampleLayout starvedBoot.mods).startFrame ≤
    sampleLayout.pageDirectoryPhys / 4096 := hf.1
  have hdirectory : sampleLayout.pageDirectoryPhys / 4096 < 513 := by decide
  omega

/-- The six frames and those of the heap are there. -/
theorem starvedBoot_draws :
    draws sampleLayout (bootStore sampleLayout starvedBoot) + 4 <
      (bootStore sampleLayout starvedBoot).mem.pfa.freeCount := by
  have hfree : (bootStore sampleLayout starvedBoot).mem.pfa.freeCount = 13 :=
    freeCount_starvedBoot
  have hpcb := pcbPages_le sampleLayout (bootStore sampleLayout starvedBoot)
  have hstack := stackPages_le sampleLayout (bootStore sampleLayout starvedBoot)
  rw [hfree]
  unfold draws
  omega

/-- A boot with zeros in the frames that matter and ones in the first frame of the heap. -/
theorem no_stale_memory_thirteen_frames :
    NoStale sampleLayout [] (bootKernel sampleLayout starvedBoot)
      (dirtied (bootStore sampleLayout starvedBoot).mem.pfa 0) (4096 * 526) (4096 * 527) := by
  have hdraws := starvedBoot_draws
  have hclear : BootClears sampleLayout (bootStore sampleLayout starvedBoot)
      (dirtied (bootStore sampleLayout starvedBoot).mem.pfa 0) (4096 * 526) (4096 * 527) := by
    intro _ _
    refine ⟨Nat.le_of_lt hdraws, fun f hf o ho => ⟨?_, ?_⟩⟩
    · rw [starvedBoot_phys]
    · -- The draws that are not cleared are not the first one.
      simp only [List.mem_cons, List.not_mem_nil, or_false] at hf
      rcases hf with hf | hf
      · rw [hf, secondFrame]
        exact dirtied_apart _ _ (Nat.succ_pos _)
          ((Nat.add_lt_add_left (by norm_num) _).trans hdraws) ho
      · rw [hf, stackFrame]
        exact dirtied_apart _ _ (Nat.succ_pos _) hdraws ho
  exact (no_stale_memory_iff (k := bootKernel sampleLayout starvedBoot)
    (bootStore_holding sampleLayout starvedBoot).store starvedBoot_directory (by norm_num)
    ⟨by norm_num, fun a hlo hhi => starvedBoot_module hlo (by omega)⟩
    fun f hf => dirtied_agrees (Nat.zero_lt_of_lt hdraws) hf).2 hclear

/-- The first module of this boot becomes a process. -/
theorem starvedBoot_made : MakeFits sampleLayout (bootStore sampleLayout starvedBoot) ∧
    ¬ Memory.ReadFaults (4096 * 526) (4096 * 527) := by
  have hfree : (bootStore sampleLayout starvedBoot).mem.pfa.freeCount = 13 :=
    freeCount_starvedBoot
  have hheap : (bootStore sampleLayout starvedBoot).heap.heapCurrent = 0xC0200000 := by decide
  have hroom : BootRoom 4 1 (bootStore sampleLayout starvedBoot) :=
    ⟨(bootPfa_frame sampleLayout starvedBoot.mods).2.2, by omega, by omega⟩
  have hread : Readable ⟨4096 * 526, 4096 * 527, some [98]⟩ := by
    simp only [Readable, Memory.copySize]
    omega
  obtain ⟨k', m₀, pcb, d, base, x, -, made, -⟩ :=
    createPcbGrubModules_room (booting_start sampleLayout starvedBoot).holding hroom hread
  exact ⟨made.fits, made.readable⟩

/-- With ones in the frame that becomes the second page, user mode reads them. -/
theorem boot_shows_stale_memory :
    (∀ f, ¬ (bootStore sampleLayout starvedBoot).mem.pfa.Free f →
      ByteMemory.BlockEq (bootStore sampleLayout starvedBoot).mem.phys
        (dirtied (bootStore sampleLayout starvedBoot).mem.pfa
          (draws sampleLayout (bootStore sampleLayout starvedBoot) + 2)) f) ∧
      ¬ NoStale sampleLayout [] (bootKernel sampleLayout starvedBoot)
        (dirtied (bootStore sampleLayout starvedBoot).mem.pfa
          (draws sampleLayout (bootStore sampleLayout starvedBoot) + 2)) (4096 * 526)
        (4096 * 527) := by
  have hdraws := starvedBoot_draws
  constructor
  · intro f hf
    exact dirtied_agrees ((Nat.add_lt_add_left (by norm_num) _).trans hdraws) hf
  · intro hstale
    have hsize : Memory.copySize (4096 * 526) (4096 * 527) = 4096 := by decide
    have hclear : BootClears sampleLayout (bootStore sampleLayout starvedBoot) _ (4096 * 526)
      (4096 * 527) := bootClears_of_noStale (k := bootKernel sampleLayout starvedBoot)
        (bootStore_holding sampleLayout starvedBoot).store
        (fun i hi => starvedBoot_module (by omega) (by omega)) hstale.boot hstale.bootModule
    obtain ⟨hfits, hread⟩ := starvedBoot_made
    have hbyte := ((hclear hfits hread).2 _ List.mem_cons_self 0 (by norm_num)).2
    have hone : dirtied (bootStore sampleLayout starvedBoot).mem.pfa
        (draws sampleLayout (bootStore sampleLayout starvedBoot) + 2)
        (4096 * secondFrame sampleLayout (bootStore sampleLayout starvedBoot) + 0) = 1 := by
      refine if_pos ?_
      rw [Nat.add_zero, Nat.mul_div_cancel_left _ (by norm_num)]
      exact Eq.refl (secondFrame sampleLayout (bootStore sampleLayout starvedBoot))
    exact absurd (hone.symm.trans hbyte) (by decide)

end Kernel

end SoKernel
