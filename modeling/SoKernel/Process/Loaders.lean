import SoKernel.Kernel.BootInvariant

/-!
# The two loaders

A module becomes a process at boot by {lit}`create_pcb_grub_modules` and after boot by
{lit}`build_new_image`.  The second loader maps and copies every page of the module.  The
first one maps two pages, whatever the size, and copies one: {lit}`copy_module` stops after
4096 bytes.

Main results:

- Theorem {lit}`execLoads`: {lit}`build_new_image` loads every byte of the module.
- Theorem {lit}`bootLoads`: {lit}`create_pcb_grub_modules` loads the first page.
- Theorem {lit}`loaders_agree_on_first_page`: what the loaders agree on.
-/

namespace SoKernel

/-- An entry that lets user mode read. -/
def userReadable (e : Nat) : Bool :=
  e % 8 == 5 || e % 8 == 7

namespace Memory

/-- The byte that user mode reads at a virtual address under the directory at
{lit}`pdt`. -/
def userByte (m : Memory) (pdt va : Nat) : Option UInt8 :=
  let pde := m.phys.word (pdt / 4096) (va / 2 ^ 22)
  let pte := m.phys.word (pde / 4096) (va / 2 ^ 12 % 1024)
  if userReadable pde ∧ userReadable pte then some (m.phys (4096 * (pte / 4096) + va % 4096))
  else none

/-- Under the directory at {lit}`pdt` user mode reads, from address 0 on, the first
{lit}`n` bytes of the module. -/
def HasProgram (m : Memory) (pdt : Nat) (src : ByteMemory) (modStart n : Nat) : Prop :=
  ∀ v, v < n → m.userByte pdt v = some (src (modStart + v))

/-- What user mode reads through entries that the loaders write. -/
theorem userByte_eq {m : Memory} {d va : Nat} (pde pte : Nat)
    (hpde : m.phys.word d (va / 2 ^ 22) = pde) (hpde7 : pde % 8 = 7)
    (hpte : m.phys.word (pde / 4096) (va / 2 ^ 12 % 1024) = pte) (hpte7 : pte % 8 = 7) :
    m.userByte (4096 * d) va = some (m.phys (4096 * (pte / 4096) + va % 4096)) := by
  have hread : ∀ e, e % 8 = 7 → userReadable e = true := by
    intro e he
    simp [userReadable, he]
  simp only [userByte, Nat.mul_div_cancel_left d (show 0 < 4096 by norm_num), hpde, hpte]
  rw [if_pos ⟨hread pde hpde7, hread pte hpte7⟩]

section ImageViews

variable {m₀ m : Memory} {a size d v : Nat}

/-- A user address of a page that the image maps. -/
theorem ImageOf.userByte_of_flags (h : ImageOf m₀ a size m.phys d) (hv : v < 0xC0000000)
    (hflags : pte m.phys d (v / 4096 / 1024) (v / 4096 % 1024) % 4096 = 7) :
    m.userByte (4096 * d) v = some
      (m.phys (4096 * (pte m.phys d (v / 4096 / 1024) (v / 4096 % 1024) / 4096) + v % 4096)) := by
  have hi : v / 4096 / 1024 = v / 2 ^ 22 := by omega
  have hj : v / 4096 % 1024 = v / 2 ^ 12 % 1024 := rfl
  rw [hi, hj] at hflags ⊢
  -- A page that is present has its table present.
  have hodd : m.phys.word d (v / 2 ^ 22) % 2 = 1 := by
    by_contra hne
    rw [pte, if_neg hne] at hflags
    cases hflags
  have htable := h.tables (v / 2 ^ 22) (by omega) hodd
  rw [pte, if_pos hodd] at hflags ⊢
  exact userByte_eq _ _ rfl (by omega) rfl (by omega)

/-- What user mode reads in the pages of the module. -/
theorem ImageOf.userByte (h : ImageOf m₀ a size m.phys d) (hregion : Region m₀ a size)
    (hv : v < 4096 * imagePages size) :
    m.userByte (4096 * d) v = some (if v < size then m₀.phys (a + v) else 0) := by
  have hpages := h.pages
  have hq : v / 4096 < imagePages size := by omega
  have hbytes := h.bytes hregion (v / 4096) hq (v % 4096) (Nat.mod_lt _ (by norm_num))
  rw [show 4096 * (v / 4096) + v % 4096 = v by omega] at hbytes
  rw [h.userByte_of_flags (by omega) (h.flags (v / 4096) hq), hbytes]

/-- What user mode reads in the stack page. -/
theorem ImageOf.userByte_stack (h : ImageOf m₀ a size m.phys d) (hlo : 0xBFFFF000 ≤ v)
    (hhi : v < 0xC0000000) : m.userByte (4096 * d) v = some 0 := by
  have hi : v / 4096 / 1024 = 767 := by omega
  have hj : v / 4096 % 1024 = 1023 := by omega
  have hflags : pte m.phys d (v / 4096 / 1024) (v / 4096 % 1024) % 4096 = 7 := by
    rw [hi, hj]
    exact h.stackFlags
  rw [h.userByte_of_flags hhi hflags, hi, hj, h.stackBytes _ (Nat.mod_lt _ (by norm_num))]

/-- An image has the program. -/
theorem ImageOf.hasProgram (h : ImageOf m₀ a size m.phys d) (hregion : Region m₀ a size) :
    m.HasProgram (4096 * d) m₀.phys a size := by
  intro v hv
  have hpage : v < 4096 * imagePages size := by
    unfold imagePages
    omega
  rw [h.userByte hregion hpage, if_pos hv]

end ImageViews

end Memory

namespace Kernel

section Loaders

variable {L : Layout} {B : BootInfo} {k k₀ k' : Kernel} {mod : MultibootModule}

/-- The kernel when the loop over the modules comes to {lit}`mod`. -/
def BootsModule (L : Layout) (B : BootInfo) (mod : MultibootModule) (k : Kernel) : Prop :=
  ∃ before after first, B.mods = before ++ mod :: after ∧
    before.foldlM (bootModule L) (0, bootKernel L B) = some (first, k)

/-- {lit}`create_pcb_grub_modules` gives the process the first {lit}`n` bytes of the range,
whenever the loop of boot comes to a module with this range and no allocation fails. -/
def BootLoads (modStart modEnd n : Nat) : Prop :=
  ∀ (L : Layout) (B : BootInfo) (mod : MultibootModule) (k k' : Kernel) (pcb : Nat),
    mod.modStart = modStart → mod.modEnd = modEnd → BootsModule L B mod k →
      k.createPcbGrubModules L modStart modEnd = some (pcb, k') → pcb ≠ 0 →
        k'.store.mem.pfa.exhausted = false →
          k'.store.mem.HasProgram (k'.pcbs pcb).pdt k.store.mem.phys modStart n

/-- {lit}`build_new_image` gives the image the first {lit}`n` bytes of the range, in every
reachable state in which it succeeds. -/
def ExecLoads (modStart modEnd n : Nat) : Prop :=
  ∀ (L : Layout) (B : BootInfo) (mod : MultibootModule) (k₀ k : Kernel) (image : Memory.Image)
    (m : Memory),
    mod.modStart = modStart → mod.modEnd = modEnd → mod ∈ B.mods → kmain L B = some k₀ →
      Reachable L k₀ k → k.store.mem.buildNewImage modStart modEnd = (some image, m) →
        m.HasProgram image.pdt k.store.mem.phys modStart n

/-- Both loaders give a process the first {lit}`n` bytes of the range. -/
def LoadersAgree (modStart modEnd n : Nat) : Prop :=
  BootLoads modStart modEnd n ∧ ExecLoads modStart modEnd n

/-! ## After boot -/

/-- Frames of a module that starts on a page boundary are in use, in every state that keeps
what boot reserved. -/
theorem module_used {F : Nat → Prop} {safe : Prop} {m : Memory} {ds : List Nat}
    (hspaces : Memory.Spaces (fun f => Reserved L B.mods f ∨ F f) safe m ds) (hmod : mod ∈ B.mods)
    (haligned : mod.modStart % 4096 = 0) {i : Nat} (hi : i < mod.modEnd - mod.modStart) :
    m.pfa.used ((mod.modStart + i) / 4096) = true := by
  have hframe : ModuleFrame mod ((mod.modStart + i) / 4096) :=
    ⟨mod.modStart + i, by omega, by omega, rfl⟩
  exact (hspaces.kept _ (.inl (bootPfa_reserves L hmod haligned hframe))).1

/-- {lit}`build_new_image` loads every byte of a module. -/
theorem execLoads {modStart modEnd : Nat} (haligned : modStart % 4096 = 0) :
    ExecLoads modStart modEnd (modEnd - modStart) := by
  rintro L B mod k₀ k image m rfl rfl hmod hboot hk hrun
  have hinv := (kmain_inv hboot).reachable hk
  have hspaces := hinv.holding.store.spaces
  rcases Memory.buildNewImage_spec (a := mod.modStart) (b := mod.modEnd) hspaces.ok hspaces.pde.1
    hinv.cr3_not_free with ⟨d, m', hbuild, -, himage, -⟩ | ⟨m', hbuild, -⟩
  · rw [hbuild, Prod.mk.injEq, Option.some.injEq] at hrun
    obtain ⟨rfl, rfl⟩ := hrun
    have hhi := B.mods_hi mod hmod
    refine himage.hasProgram ⟨by omega, fun x hlo hhi' hfree => ?_⟩
    have hused := module_used hspaces hmod haligned (show x - mod.modStart < _ by omega)
    rw [show mod.modStart + (x - mod.modStart) = x by omega, hfree.2.2] at hused
    cases hused
  · rw [hbuild] at hrun
    cases hrun

/-! ## At boot -/

theorem BootsModule.booting (h : BootsModule L B mod k) :
    mod ∈ B.mods ∧ ∃ n first, Booting L B n first k := by
  obtain ⟨before, after, first, hmods, hrun⟩ := h
  refine ⟨?_, 0 + before.length, first, ?_⟩
  · rw [hmods]
    simp
  · refine (booting_start L B).loop ?_ hrun
    rw [hmods, List.length_append]
    omega

section Made

variable {R : Nat → Prop} {c : Nat} {bs : List (Nat × Nat)} {ds : List Nat} {m₀ : Memory}
  {modStart modEnd pcb d base : Nat} {x : BootFrames}

/-- When no allocation has failed, the frames of a new process are frames. -/
theorem Made.drawn_ne (h : Made L R c bs ds k modStart modEnd k' m₀ pcb d base x)
    (hplenty : k'.store.mem.pfa.exhausted = false) : 0 ∉ x.list := by
  intro hz
  have hexh := h.space.drawn.failed.2 (.inr hz)
  rw [hplenty] at hexh
  cases hexh

/-- User mode reads the first frame of a new process at the addresses of page 0 and the
second one at those of page 1. -/
theorem Made.userByte (h : Made L R c bs ds k modStart modEnd k' m₀ pcb d base x)
    (hz : 0 ∉ x.list) {v : Nat} (hv : v < 4096) :
    k'.store.mem.userByte (k'.pcbs pcb).pdt v = some (k'.store.mem.phys (4096 * x.page0 + v)) ∧
      k'.store.mem.userByte (k'.pcbs pcb).pdt (4096 + v) =
        some (k'.store.mem.phys (4096 * x.page1 + v)) := by
  have htable : x.table ≠ 0 := fun ht => hz (by simp [BootFrames.list, ht])
  have hpdt : (k'.pcbs pcb).pdt = 4096 * d := by
    rw [h.pcb_eq]
    rfl
  have hdir := h.space.loaded.dir 0 (by norm_num)
  have hentry := fun j hj => h.space.loaded.table htable j hj
  rw [if_pos rfl] at hdir
  rw [hpdt]
  constructor
  · have hpte := hentry 0 (by norm_num)
    rw [if_pos rfl] at hpte
    rw [Memory.userByte_eq (4096 * x.table + 7) (4096 * x.page0 + 7) ?_ (by omega) ?_
      (by omega), show (4096 * x.page0 + 7) / 4096 = x.page0 by omega, Nat.mod_eq_of_lt hv]
    · rw [show v / 2 ^ 22 = 0 by omega]
      exact hdir
    · rw [show v / 2 ^ 12 % 1024 = 0 by omega, show (4096 * x.table + 7) / 4096 = x.table by omega]
      exact hpte
  · have hpte := hentry 1 (by norm_num)
    rw [if_neg (by norm_num), if_pos rfl] at hpte
    rw [Memory.userByte_eq (4096 * x.table + 7) (4096 * x.page1 + 7) ?_ (by omega) ?_
      (by omega), show (4096 * x.page1 + 7) / 4096 = x.page1 by omega,
      show (4096 + v) % 4096 = v by omega]
    · rw [show (4096 + v) / 2 ^ 22 = 0 by omega]
      exact hdir
    · rw [show (4096 + v) / 2 ^ 12 % 1024 = 1 by omega,
        show (4096 * x.table + 7) / 4096 = x.table by omega]
      exact hpte

/-- The second frame is not written. -/
theorem Made.secondPage (h : Made L R c bs ds k modStart modEnd k' m₀ pcb d base x)
    (hz : 0 ∉ x.list) :
    m₀.pfa.Free x.page1 ∧
      ByteMemory.BlockEq k.store.mem.phys k'.store.mem.phys x.page1 := by
  have hmem : x.page1 ∈ x.list := by simp [BootFrames.list]
  have hne : x.page1 ≠ 0 := fun hp => hz (hp ▸ hmem)
  have htable : x.table ≠ 0 := fun ht => hz (by simp [BootFrames.list, ht])
  have hpage : x.page0 ≠ 0 := fun ht => hz (by simp [BootFrames.list, ht])
  obtain ⟨hd, ha, hb, hc, -⟩ := h.space.frames.facts
  refine ⟨h.space.drawn.fresh _ hmem hne, (h.kept _ (Ne.symm hd.2.2.1)).trans ?_⟩
  exact h.space.loaded.others _ (Ne.symm hd.2.2.1) (Ne.symm (ha htable).2.1)
    (Ne.symm (hb hpage).1) (hc hne).1

end Made

/-- {lit}`create_pcb_grub_modules` loads the first page of a module. -/
theorem bootLoads {modStart modEnd : Nat} (hlt : modStart < modEnd)
    (haligned : modStart % 4096 = 0) :
    BootLoads modStart modEnd (min 4096 (modEnd - modStart)) := by
  rintro L B mod k k' pcb rfl rfl hbooting hrun hpcb hplenty
  obtain ⟨hmod, n, first, hb⟩ := hbooting.booting
  have hspec := createPcbGrubModules_spec hb.holding mod.modStart mod.modEnd
  rw [hrun] at hspec
  cases hspec with
  | failed hold beside short => exact absurd rfl hpcb
  | @made k' m₀ pcb d base x made =>
      have hz := made.drawn_ne hplenty
      have hpage : x.page0 ≠ 0 := fun ht => hz (by simp [BootFrames.list, ht])
      have hcopy : Memory.copySize mod.modStart mod.modEnd =
          min 4096 (mod.modEnd - mod.modStart) := by
        have hhi := B.mods_hi mod hmod
        simp only [Memory.copySize, u32]
        omega
      -- The frames of the module are in use, so they are not among those drawn.
      have hused : ∀ i, i < mod.modEnd - mod.modStart →
          k.store.mem.pfa.used ((mod.modStart + i) / 4096) = true := fun i hi =>
        module_used hb.holding.store.spaces hmod haligned hi
      have hdir : ∀ i, i < mod.modEnd - mod.modStart → (mod.modStart + i) / 4096 ≠ d := by
        intro i hi heq
        have hfree := made.free.2.2
        rw [← heq, hused i hi] at hfree
        cases hfree
      have hdrawn : ∀ f ∈ x.list, ∀ i, i < mod.modEnd - mod.modStart →
          (mod.modStart + i) / 4096 ≠ f := by
        intro f hf i hi heq
        have hfree := (made.space.drawn.fresh f hf fun hf0 => hz (hf0 ▸ hf)).2.2
        rw [← heq, made.taken _ (hused i hi)] at hfree
        cases hfree
      intro v hv
      rw [(made.userByte hz (by omega)).1, made.space.bytes hpage ?_ v (by omega), hcopy,
        if_pos hv]
      · exact congrArg some (made.kept _ (hdir v (by omega)) _ rfl).symm
      · intro i hi
        have hi' : i < mod.modEnd - mod.modStart := by omega
        simp only [List.mem_cons, List.not_mem_nil, or_false, not_or]
        exact ⟨hdir i hi', hdrawn _ (by simp [BootFrames.list]) i hi',
          hdrawn _ (by simp [BootFrames.list]) i hi'⟩

end Loaders

end Kernel

/-! ## Modules of more than one page -/

/-- A boot with one module, whose bytes are 1 while the rest of memory is 0. -/
def onesBoot (a b : Nat) (hab : a < b) (hb : b ≤ 0x400000) : BootInfo where
  mods := [⟨a, b, none⟩]
  phys := fun x => if a ≤ x ∧ x < b then 1 else 0
  kernelBytes := fun _ => 0
  policy := .rr
  quantum := 1
  mods_count := by norm_num
  mods_hi := by
    intro mod hmod
    rw [List.mem_singleton] at hmod
    subst hmod
    exact ⟨show a < _ by omega, show b ≤ _ by omega⟩

namespace Kernel

theorem onesBoot_room {a b : Nat} (hab : a < b) (hb : b ≤ 0x400000) :
    BootRoom 0 1 (bootStore sampleLayout (onesBoot a b hab hb)) := by
  have hframes := bootPfa_frame sampleLayout (onesBoot a b hab hb).mods
  have hcount := freeCount_bootPfa sampleLayout (onesBoot a b hab hb).mods
  have hpages : ((onesBoot a b hab hb).mods.map modulePages).sum ≤ 1024 := by
    change modulePages ⟨a, b, none⟩ + 0 ≤ 1024
    simp only [modulePages]
    omega
  have halign : pageAlignUp sampleLayout.kernelPhysicalEnd = 0x200000 := by decide
  rw [halign] at hframes
  refine ⟨hframes.2.2, ?_, ?_⟩
  · change _ ≤ (bootPfa sampleLayout (onesBoot a b hab hb).mods).freeCount
    omega
  · change sampleLayout.heapStart + _ + _ ≤ _
    have hstart : sampleLayout.heapStart = 0xC0200000 := by decide
    omega

/-- At the start of the second page the new process has a byte of a frame that was free, not
the byte of the module. -/
theorem onesBoot_secondPage {a b : Nat} (haligned : a % 4096 = 0) (hsize : 4096 < b - a)
    (hb : b ≤ 0x400000) :
    ∃ pcb k', (bootKernel sampleLayout (onesBoot a b (by omega) hb)).createPcbGrubModules
        sampleLayout a b = some (pcb, k') ∧ pcb ≠ 0 ∧ k'.store.mem.pfa.exhausted = false ∧
      k'.store.mem.userByte (k'.pcbs pcb).pdt 4096 = some 0 := by
  have hab : a < b := by omega
  have hstart := booting_start sampleLayout (onesBoot a b hab hb)
  have hread : Readable ⟨a, b, none⟩ := by
    simp only [Readable, Memory.copySize]
    omega
  obtain ⟨k', m₀, pcb, d, base, x, hrun, made, hz, hroom⟩ :=
    createPcbGrubModules_room hstart.holding (onesBoot_room hab hb) hread
  refine ⟨pcb, k', hrun, made.pcb_ne, hroom.plenty, ?_⟩
  obtain ⟨hfree, hkept⟩ := made.secondPage hz
  have hbyte := (made.userByte hz (show 0 < 4096 by norm_num)).2
  rw [Nat.add_zero, Nat.add_zero] at hbyte
  rw [hbyte, ← hkept (4096 * x.page1) (by omega)]
  -- The frame was free, so it is not a frame of the module.
  change some (if a ≤ 4096 * x.page1 ∧ 4096 * x.page1 < b then 1 else 0) = _
  rw [if_neg]
  rintro ⟨hlo, hhi⟩
  have hmod : (⟨a, b, none⟩ : MultibootModule) ∈ (onesBoot a b hab hb).mods :=
    List.mem_cons_self
  have hused := made.taken _ (module_used hstart.holding.store.spaces hmod haligned
    (show 4096 * x.page1 - a < b - a by omega))
  simp only [show a + (4096 * x.page1 - a) = 4096 * x.page1 by omega] at hused
  rw [Nat.mul_div_cancel_left _ (by norm_num), hfree.2.2] at hused
  cases hused

/-- A module of more than one page is not loaded at boot. -/
theorem BootLoads.one_page {a b : Nat} (haligned : a % 4096 = 0) (hb : b ≤ 0x400000)
    (h : BootLoads a b (b - a)) : b - a ≤ 4096 := by
  by_contra hsize
  obtain ⟨pcb, k', hrun, hpcb, hplenty, hbyte⟩ :=
    onesBoot_secondPage haligned (Nat.lt_of_not_le hsize) hb
  have hprogram := h sampleLayout (onesBoot a b (by omega) hb) ⟨a, b, none⟩ _ k' pcb rfl rfl
    ⟨[], [], 0, rfl, rfl⟩ hrun hpcb hplenty 4096 (by omega)
  rw [hbyte] at hprogram
  change some 0 = some (if a ≤ a + 4096 ∧ a + 4096 < b then 1 else 0) at hprogram
  rw [if_pos ⟨by omega, by omega⟩] at hprogram
  cases hprogram

/-- Boot and exec load the same first page, exec loads the rest as well, and boot and exec
load the same program exactly when there is no rest. -/
theorem loaders_agree_on_first_page {modStart modEnd : Nat} (hlt : modStart < modEnd)
    (haligned : modStart % 4096 = 0) (hhigh : modEnd ≤ 0x400000) :
    LoadersAgree modStart modEnd (min 4096 (modEnd - modStart)) ∧
      ExecLoads modStart modEnd (modEnd - modStart) ∧
      (LoadersAgree modStart modEnd (modEnd - modStart) ↔ modEnd - modStart ≤ 4096) := by
  have hboot := bootLoads hlt haligned
  have hexec : ExecLoads modStart modEnd (modEnd - modStart) := execLoads haligned
  refine ⟨⟨hboot, ?_⟩, hexec, fun h => h.1.one_page haligned hhigh, fun hsize => ⟨?_, hexec⟩⟩
  · intro L B mod k₀ k image m hstart hend hmod hrun hk himage v hv
    exact hexec L B mod k₀ k image m hstart hend hmod hrun hk himage v (by omega)
  · rw [Nat.min_eq_right hsize] at hboot
    exact hboot

theorem loaders_agree_on_first_page_three_pages :
    LoadersAgree 0x300000 0x303000 4096 ∧ ExecLoads 0x300000 0x303000 0x3000 ∧
      LoadersAgree 0x300000 0x300800 0x800 := by
  have hlarge := loaders_agree_on_first_page (show 0x300000 < 0x303000 by norm_num) (by norm_num)
    (by norm_num)
  have hsmall := loaders_agree_on_first_page (show 0x300000 < 0x300800 by norm_num) (by norm_num)
    (by norm_num)
  exact ⟨hlarge.1, hlarge.2.1, hsmall.2.2.2 (by norm_num)⟩

/-- The second page of a module of two pages is not loaded at boot. -/
theorem loaders_disagree_two_pages : ¬ LoadersAgree 0x300000 0x302000 (0x302000 - 0x300000) := by
  intro h
  exact absurd (h.1.one_page (by norm_num) (by norm_num)) (by norm_num)

end Kernel

end SoKernel
