import SoKernel.Library.Descriptors

/-!
# The descriptor tables

This module models {lit}`gdt.c`, {lit}`tss.c` and {lit}`idt.c`: the descriptors that the kernel
fills in at boot, as the structures of the source and as the eight bytes that the processor reads.
The addresses of the handlers and of the task state segment are parameters.

Main results:

- Theorem {lit}`ofWord_initGdtDescriptor`: what the processor reads of a descriptor that
  {lit}`init_gdt_descriptor` has filled in.
- Theorems {lit}`enter_int_iff` and {lit}`enter_external_iff`: the vectors that enter the kernel.
- Theorems {lit}`loadsData_iff`, {lit}`jumpsTo_iff` and {lit}`no_ports`: what is open to ring 3.
- Theorem {lit}`returnsTo_iff`: what the kernel can return to.
-/

namespace SoKernel

/-! ## The source functions -/

/-- {lit}`struct gdt_seg_descriptor`. -/
structure GdtSegDescriptor where
  limit_0_15 : Nat
  base_0_15 : Nat
  base_16_23 : Nat
  accessByte : Nat
  limit_16_19 : Nat
  flags : Nat
  base_24_31 : Nat

/-- {lit}`init_gdt_descriptor`. -/
def initGdtDescriptor (base limite acces flags : Nat) : GdtSegDescriptor where
  limit_0_15 := limite % 2 ^ 16
  base_0_15 := base % 2 ^ 16
  base_16_23 := base / 2 ^ 16 % 2 ^ 8
  accessByte := acces
  limit_16_19 := limite / 2 ^ 16 % 2 ^ 4
  flags := flags % 2 ^ 4
  base_24_31 := base / 2 ^ 24 % 2 ^ 8

/-- The eight bytes of a descriptor, as one word. -/
def GdtSegDescriptor.word (d : GdtSegDescriptor) : Nat :=
  d.limit_0_15 + 2 ^ 16 * d.base_0_15 + 2 ^ 32 * d.base_16_23 + 2 ^ 40 * d.accessByte +
    2 ^ 48 * d.limit_16_19 + 2 ^ 52 * d.flags + 2 ^ 56 * d.base_24_31

/-- The fields of {lit}`struct tss_entry` that are not 0. -/
structure TssEntry where
  esp0 : Nat
  ss0 : Nat
  iomapBase : Nat

/-- {lit}`sizeof(tss)`. -/
def sizeofTss : Nat :=
  104

/-- The double words of the structure. -/
def TssEntry.dword (t : TssEntry) (i : Nat) : Nat :=
  if i = 1 then t.esp0 else if i = 2 then t.ss0 else if i = 25 then 2 ^ 16 * t.iomapBase else 0

/-- The structure as {lit}`tss_init` fills it in. -/
def tssInit (ss0 esp0 : Nat) : TssEntry where
  esp0 := esp0
  ss0 := ss0
  iomapBase := sizeofTss

/-- {lit}`tss_set_kernel_stack`. -/
def tssSetKernelStack (t : TssEntry) (esp0 : Nat) : TssEntry :=
  { t with esp0 := esp0 }

/-- {lit}`struct idt_descriptor`. -/
structure IdtDescriptor where
  offsetLow : Nat
  segmentSelector : Nat
  reserved : Nat
  typeAttr : Nat
  offsetHigh : Nat

/-- {lit}`init_idt_desc`. -/
def initIdtDesc (select offset type : Nat) : IdtDescriptor where
  offsetLow := offset % 2 ^ 16
  segmentSelector := select
  reserved := 0
  typeAttr := type % 2 ^ 8
  offsetHigh := offset / 2 ^ 16 % 2 ^ 16

/-- The eight bytes of a gate, as one word. -/
def IdtDescriptor.word (d : IdtDescriptor) : Nat :=
  d.offsetLow + 2 ^ 16 * d.segmentSelector + 2 ^ 32 * d.reserved + 2 ^ 40 * d.typeAttr +
    2 ^ 48 * d.offsetHigh

/-- Where the linker puts the handlers and the task state segment. -/
structure Addresses where
  interruptHandler32 : Nat
  interruptHandler33 : Nat
  interruptHandler39 : Nat
  interruptHandler47 : Nat
  syscallHandler128 : Nat
  tss : Nat
  handlers_lt : interruptHandler32 < 2 ^ 32 ∧ interruptHandler33 < 2 ^ 32 ∧
    interruptHandler39 < 2 ^ 32 ∧ interruptHandler47 < 2 ^ 32 ∧ syscallHandler128 < 2 ^ 32
  tss_lt : tss + sizeofTss ≤ 2 ^ 32

/-- {lit}`init_gdt`, with the descriptor that {lit}`tss_init` adds. -/
def initGdt (A : Addresses) (i : Nat) : GdtSegDescriptor :=
  if i = 1 then initGdtDescriptor 0 0xFFFFFFFF 0x9B 0xC
  else if i = 2 then initGdtDescriptor 0 0xFFFFFFFF 0x92 0xC
  else if i = 3 then initGdtDescriptor 0 0xFFFFFFFF 0xFB 0xC
  else if i = 4 then initGdtDescriptor 0 0xFFFFFFFF 0xF2 0xC
  else if i = 5 then initGdtDescriptor A.tss (sizeofTss - 1) 0x89 0
  else initGdtDescriptor 0 0 0 0

/-- The handler that {lit}`init_idt` registers for a vector, with the type of its gate. -/
def handlerOf (A : Addresses) (vector : Nat) : Option (Nat × Nat) :=
  if vector = 32 then some (A.interruptHandler32, 0x8E)
  else if vector = 33 then some (A.interruptHandler33, 0x8E)
  else if vector = 39 then some (A.interruptHandler39, 0x8E)
  else if vector = 47 then some (A.interruptHandler47, 0x8E)
  else if vector = 128 then some (A.syscallHandler128, 0xEE)
  else none

/-- {lit}`init_idt`: the other descriptors of the static array are 0. -/
def initIdt (A : Addresses) (vector : Nat) : IdtDescriptor :=
  match handlerOf A vector with
  | some (handler, type) => initIdtDesc 0x08 handler type
  | none => ⟨0, 0, 0, 0, 0⟩

/-- The processor after {lit}`lgdt`, {lit}`ltr` and {lit}`lidt`: the task register has the
segment of the sixth descriptor, which is then marked busy.  The task state segment stands in
memory among other things. -/
def kernelProcessor (A : Addresses) (other : Nat → Nat) (t : TssEntry) : Processor where
  gdt := fun i => if i = 5 then (initGdt A 5).word + 2 ^ 41 else (initGdt A i).word
  gdtLimit := 6 * 8 - 1
  idt := fun vector => (initIdt A vector).word
  idtLimit := 256 * 8 - 1
  task := Segment.ofWord (initGdt A 5).word
  memory := fun a =>
    if A.tss ≤ a ∧ a < A.tss + sizeofTss then t.dword ((a - A.tss) / 4) else other a

/-! ## What the processor reads -/

/-- The fields fit in their bits. -/
structure GdtSegDescriptor.Fits (d : GdtSegDescriptor) : Prop where
  limit_0_15 : d.limit_0_15 < 2 ^ 16
  base_0_15 : d.base_0_15 < 2 ^ 16
  base_16_23 : d.base_16_23 < 2 ^ 8
  accessByte : d.accessByte < 2 ^ 8
  limit_16_19 : d.limit_16_19 < 2 ^ 4
  flags : d.flags < 2 ^ 4
  base_24_31 : d.base_24_31 < 2 ^ 8

theorem fits_initGdtDescriptor {acces : Nat} (base limite flags : Nat) (hacces : acces < 2 ^ 8) :
    (initGdtDescriptor base limite acces flags).Fits where
  limit_0_15 := Nat.mod_lt _ (by norm_num)
  base_0_15 := Nat.mod_lt _ (by norm_num)
  base_16_23 := Nat.mod_lt _ (by norm_num)
  accessByte := hacces
  limit_16_19 := Nat.mod_lt _ (by norm_num)
  flags := Nat.mod_lt _ (by norm_num)
  base_24_31 := Nat.mod_lt _ (by norm_num)

/-- The processor finds the fields in the eight bytes. -/
theorem GdtSegDescriptor.Fits.ofWord {d : GdtSegDescriptor} (h : d.Fits) :
    Segment.ofWord d.word =
      ⟨d.base_0_15 + 2 ^ 16 * d.base_16_23 + 2 ^ 24 * d.base_24_31,
        if d.flags / 8 = 1 then 4096 * (d.limit_0_15 + 2 ^ 16 * d.limit_16_19) + 4095
        else d.limit_0_15 + 2 ^ 16 * d.limit_16_19, d.accessByte⟩ := by
  obtain ⟨hlimit, hbase, hmiddle, haccess, htop, hflags, hhigh⟩ := h
  have hw : d.word = d.limit_0_15 + 2 ^ 16 * d.base_0_15 + 2 ^ 32 * d.base_16_23 +
      2 ^ 40 * d.accessByte + 2 ^ 48 * d.limit_16_19 + 2 ^ 52 * d.flags + 2 ^ 56 * d.base_24_31 :=
    rfl
  have hfields : bitField d.word 0 16 = d.limit_0_15 ∧
      bitField d.word 16 24 = d.base_0_15 + 2 ^ 16 * d.base_16_23 ∧
      bitField d.word 40 8 = d.accessByte ∧ bitField d.word 48 4 = d.limit_16_19 ∧
      bitField d.word 55 1 = d.flags / 8 ∧ bitField d.word 56 8 = d.base_24_31 := by
    simp only [bitField]
    omega
  obtain ⟨h₀, h₁, h₂, h₃, h₄, h₅⟩ := hfields
  simp only [Segment.ofWord, h₀, h₁, h₂, h₃, h₄, h₅]

/-- The processor reads back the base, the lower 20 bits of the limit, in units of a byte or of
4096 bytes, and the access byte. -/
theorem ofWord_initGdtDescriptor {base acces : Nat} (limite flags : Nat) (hbase : base < 2 ^ 32)
    (hacces : acces < 2 ^ 8) :
    Segment.ofWord (initGdtDescriptor base limite acces flags).word =
      ⟨base, if flags / 8 % 2 = 1 then 4096 * (limite % 2 ^ 20) + 4095 else limite % 2 ^ 20,
        acces⟩ := by
  have hbase' : base % 2 ^ 16 + 2 ^ 16 * (base / 2 ^ 16 % 2 ^ 8) +
      2 ^ 24 * (base / 2 ^ 24 % 2 ^ 8) = base := by omega
  have hlimit : limite % 2 ^ 16 + 2 ^ 16 * (limite / 2 ^ 16 % 2 ^ 4) = limite % 2 ^ 20 := by omega
  have hflags : flags % 2 ^ 4 / 8 = flags / 8 % 2 := by omega
  rw [(fits_initGdtDescriptor base limite flags hacces).ofWord]
  simp only [initGdtDescriptor, hbase', hlimit, hflags]

/-- Marking a task state segment busy changes its type only. -/
theorem word_busy (base limite flags : Nat) :
    (initGdtDescriptor base limite 0x89 flags).word + 2 ^ 41 =
      (initGdtDescriptor base limite 0x8B flags).word := by
  simp only [GdtSegDescriptor.word, initGdtDescriptor]
  ring

/-- The fields fit in their bits. -/
structure IdtDescriptor.Fits (d : IdtDescriptor) : Prop where
  offsetLow : d.offsetLow < 2 ^ 16
  segmentSelector : d.segmentSelector < 2 ^ 16
  reserved : d.reserved < 2 ^ 8
  typeAttr : d.typeAttr < 2 ^ 8
  offsetHigh : d.offsetHigh < 2 ^ 16

theorem fits_initIdtDesc {select : Nat} (offset type : Nat) (hselect : select < 2 ^ 16) :
    (initIdtDesc select offset type).Fits where
  offsetLow := Nat.mod_lt _ (by norm_num)
  segmentSelector := hselect
  reserved := by norm_num [initIdtDesc]
  typeAttr := Nat.mod_lt _ (by norm_num)
  offsetHigh := Nat.mod_lt _ (by norm_num)

/-- The processor finds the fields in the eight bytes. -/
theorem IdtDescriptor.Fits.ofWord {d : IdtDescriptor} (h : d.Fits) :
    Gate.ofWord d.word =
      ⟨d.offsetLow + 2 ^ 16 * d.offsetHigh, d.segmentSelector, d.typeAttr⟩ := by
  obtain ⟨hlow, hselector, hreserved, htype, hhigh⟩ := h
  have hw : d.word = d.offsetLow + 2 ^ 16 * d.segmentSelector + 2 ^ 32 * d.reserved +
      2 ^ 40 * d.typeAttr + 2 ^ 48 * d.offsetHigh := rfl
  have hfields : bitField d.word 0 16 = d.offsetLow ∧ bitField d.word 16 16 = d.segmentSelector ∧
      bitField d.word 40 8 = d.typeAttr ∧ bitField d.word 48 16 = d.offsetHigh := by
    simp only [bitField]
    omega
  obtain ⟨h₀, h₁, h₂, h₃⟩ := hfields
  simp only [Gate.ofWord, h₀, h₁, h₂, h₃]

/-- The processor reads back the address of the handler, the selector and the type. -/
theorem ofWord_initIdtDesc {select offset type : Nat} (hselect : select < 2 ^ 16)
    (hoffset : offset < 2 ^ 32) (htype : type < 2 ^ 8) :
    Gate.ofWord (initIdtDesc select offset type).word = ⟨offset, select, type⟩ := by
  have hoffset' : offset % 2 ^ 16 + 2 ^ 16 * (offset / 2 ^ 16 % 2 ^ 16) = offset := by omega
  rw [(fits_initIdtDesc offset type hselect).ofWord]
  simp only [initIdtDesc, hoffset', Nat.mod_eq_of_lt htype]

section Tables

variable (A : Addresses) (other : Nat → Nat) (t : TssEntry) {vector selector : Nat}

/-- The segments of the table, by index. -/
def segmentAt (A : Addresses) (i : Nat) : Segment :=
  if i = 1 then ⟨0, 0xFFFFFFFF, 0x9B⟩
  else if i = 2 then ⟨0, 0xFFFFFFFF, 0x92⟩
  else if i = 3 then ⟨0, 0xFFFFFFFF, 0xFB⟩
  else if i = 4 then ⟨0, 0xFFFFFFFF, 0xF2⟩
  else if i = 5 then ⟨A.tss, 103, 0x8B⟩
  else ⟨0, 0, 0⟩

/-- The processor sees the segments. -/
theorem ofWord_gdt (i : Nat) :
    Segment.ofWord ((kernelProcessor A other t).gdt i) = segmentAt A i := by
  have htss : A.tss < 2 ^ 32 := by
    have := A.tss_lt
    have : sizeofTss = 104 := rfl
    omega
  change Segment.ofWord (if i = 5 then (initGdt A 5).word + 2 ^ 41 else (initGdt A i).word) = _
  unfold segmentAt
  by_cases h5 : i = 5
  · subst h5
    exact (congrArg Segment.ofWord (word_busy A.tss (sizeofTss - 1) 0)).trans
      (ofWord_initGdtDescriptor _ _ htss (by norm_num))
  · rw [if_neg h5, if_neg h5]
    unfold initGdt
    rw [if_neg h5]
    repeat' split
    all_goals exact ofWord_initGdtDescriptor _ _ (by norm_num) (by norm_num)

/-- The task register. -/
theorem kernelProcessor_task :
    (kernelProcessor A other t).task = ⟨A.tss, 103, 0x89⟩ := by
  have htss : A.tss < 2 ^ 32 := by
    have := A.tss_lt
    have : sizeofTss = 104 := rfl
    omega
  exact ofWord_initGdtDescriptor (sizeofTss - 1) 0 htss (by norm_num)

/-- The segment of a selector. -/
theorem segment_eq (selector : Nat) :
    (kernelProcessor A other t).segment selector =
      if selector / 4 % 2 = 1 ∨ 47 < 8 * (selector / 8) + 7 then none
      else some (segmentAt A (selector / 8)) := by
  rw [← ofWord_gdt A other t]
  rfl

/-- The vectors with a handler. -/
def handled : List Nat :=
  [32, 33, 39, 47, 128]

/-- The handlers lie in the code segment, and only the one of the system calls is open to
ring 3. -/
theorem handler_cases {handler type : Nat} (h : handlerOf A vector = some (handler, type)) :
    vector ∈ handled ∧ handler < 2 ^ 32 ∧ type = if vector = 128 then 0xEE else 0x8E := by
  obtain ⟨h₀, h₁, h₂, h₃, h₄⟩ := A.handlers_lt
  unfold handlerOf at h
  split_ifs at h
  all_goals
    cases h
    subst_vars
  · exact ⟨by decide, h₀, rfl⟩
  · exact ⟨by decide, h₁, rfl⟩
  · exact ⟨by decide, h₂, rfl⟩
  · exact ⟨by decide, h₃, rfl⟩
  · exact ⟨by decide, h₄, rfl⟩

theorem handlerOf_none (h : vector ∉ handled) : handlerOf A vector = none := by
  cases hhandler : handlerOf A vector with
  | none => rfl
  | some gate => exact absurd (handler_cases A hhandler).1 h

theorem handlerOf_some (h : vector ∈ handled) :
    ∃ handler, handlerOf A vector = some (handler, if vector = 128 then 0xEE else 0x8E) := by
  rw [handled] at h
  simp only [List.mem_cons, List.not_mem_nil, or_false] at h
  rcases h with rfl | rfl | rfl | rfl | rfl
  · exact ⟨A.interruptHandler32, rfl⟩
  · exact ⟨A.interruptHandler33, rfl⟩
  · exact ⟨A.interruptHandler39, rfl⟩
  · exact ⟨A.interruptHandler47, rfl⟩
  · exact ⟨A.syscallHandler128, rfl⟩

/-- The gate of a vector with a handler. -/
theorem gate_of_handler {handler type : Nat} (h : handlerOf A vector = some (handler, type)) :
    Gate.ofWord ((kernelProcessor A other t).idt vector) = ⟨handler, 8, type⟩ := by
  obtain ⟨-, hhandler, htype⟩ := handler_cases A h
  have hidt : (kernelProcessor A other t).idt vector = (initIdtDesc 8 handler type).word := by
    change (initIdt A vector).word = _
    rw [initIdt, h]
  rw [hidt]
  refine ofWord_initIdtDesc (by norm_num) hhandler ?_
  rw [htype]
  split
  · norm_num
  · norm_num

/-- The vectors without a handler have no gate. -/
theorem noGate_of_none (h : vector ∉ handled) :
    (Gate.ofWord ((kernelProcessor A other t).idt vector)).isGate = false := by
  have hidt : (kernelProcessor A other t).idt vector = 0 := by
    change (initIdt A vector).word = _
    rw [initIdt, handlerOf_none A h]
    rfl
  rw [hidt]
  decide

/-! ## Entering the kernel -/

/-- The processor finds the words of the task state segment in memory. -/
theorem memory_tss {i : Nat} (hi : i < 26) :
    (kernelProcessor A other t).memory (A.tss + 4 * i) = t.dword i := by
  have hsize : sizeofTss = 104 := rfl
  have hin : A.tss ≤ A.tss + 4 * i ∧ A.tss + 4 * i < A.tss + sizeofTss := by omega
  have hindex : (A.tss + 4 * i - A.tss) / 4 = i := by omega
  change (if A.tss ≤ A.tss + 4 * i ∧ A.tss + 4 * i < A.tss + sizeofTss then
    t.dword ((A.tss + 4 * i - A.tss) / 4) else _) = _
  rw [if_pos hin, hindex]

variable {t}

/-- The stack for ring 0. -/
theorem newStack_eq (hss : t.ss0 = 0x10) (ext : Nat) :
    (kernelProcessor A other t).newStack 0 ext = .ok (0x10, t.esp0) := by
  have hsegment : (kernelProcessor A other t).segment 0x10 = some ⟨0, 0xFFFFFFFF, 0x92⟩ := by
    rw [segment_eq]
    rfl
  have hesp : (kernelProcessor A other t).memory (A.tss + 8 * 0 + 4) = t.esp0 :=
    memory_tss A other t (by norm_num : 1 < 26)
  have hss' : (kernelProcessor A other t).memory (A.tss + 8 * 0 + 8) = t.ss0 :=
    memory_tss A other t (by norm_num : 2 < 26)
  unfold Processor.newStack
  rw [kernelProcessor_task]
  simp only [hesp, hss', hss]
  norm_num [hsegment]
  rfl

/-- A gate to the code segment of the kernel leads to the handler in ring 0; from another ring
it changes the stack. -/
theorem throughGate_eq (hss : t.ss0 = 0x10) {handler : Nat} (hhandler : handler < 2 ^ 32)
    (type cpl ext : Nat) :
    (kernelProcessor A other t).throughGate cpl ext ⟨handler, 8, type⟩ =
      .ok ⟨8, handler, if cpl = 0 then none else some (0x10, t.esp0),
        (⟨handler, 8, type⟩ : Gate).isInterrupt⟩ := by
  have hsegment : (kernelProcessor A other t).segment 8 = some ⟨0, 0xFFFFFFFF, 0x9B⟩ := by
    rw [segment_eq]
    rfl
  have hlimit : ¬ 0xFFFFFFFF < handler := by omega
  unfold Processor.throughGate
  rw [if_neg (by norm_num : ¬ 8 / 4 = 0)]
  simp only [hsegment]
  generalize hs : (⟨0, 0xFFFFFFFF, 0x9B⟩ : Segment) = s
  have hcode : ¬ (s.isCode = false ∨ cpl < s.dpl) := by
    rw [← hs]
    rintro (h | h)
    · exact absurd h (by decide)
    · exact absurd h (Nat.not_lt_zero _)
  have hpresent : ¬ s.present = false := by
    rw [← hs]
    decide
  have hdpl : s.dpl = 0 := by
    rw [← hs]
    rfl
  have hconforming : s.conforming = false := by
    rw [← hs]
    rfl
  rw [if_neg hcode, if_neg hpresent, hdpl, newStack_eq A other hss]
  by_cases hcpl : cpl = 0
  · have houter : ¬ (s.conforming = false ∧ 0 < cpl) := by
      rw [hcpl]
      exact fun h => absurd h.2 (Nat.lt_irrefl 0)
    rw [if_neg houter, if_neg hlimit, if_pos hcpl, hcpl]
  · have houter : s.conforming = false ∧ 0 < cpl := ⟨hconforming, Nat.pos_of_ne_zero hcpl⟩
    rw [if_pos houter, if_neg hcpl]
    exact if_neg hlimit

/-- An interrupt with a handler enters ring 0 there, with interrupts off, and on the stack of the
task state segment when it comes from another ring; for the instruction {lit}`int` the gate has to
be open. -/
theorem enter_handler (hss : t.ss0 = 0x10) {handler type cpl : Nat} {software : Bool}
    (h : handlerOf A vector = some (handler, type))
    (hcpl : software = true → cpl = 0 ∨ vector = 128 ∧ cpl ≤ 3) :
    (kernelProcessor A other t).enter cpl software vector =
      .ok ⟨8, handler, if cpl = 0 then none else some (0x10, t.esp0), true⟩ := by
  obtain ⟨hhandled, hhandler, htype⟩ := handler_cases A h
  have hvector : vector ≤ 128 := by
    rw [handled] at hhandled
    simp only [List.mem_cons, List.not_mem_nil, or_false] at hhandled
    omega
  have hlimit : 8 * vector + 7 ≤ (kernelProcessor A other t).idtLimit := by
    change 8 * vector + 7 ≤ 256 * 8 - 1
    omega
  have htypes : type = 0xEE ∨ type = 0x8E := by
    rw [htype]
    split
    · exact .inl rfl
    · exact .inr rfl
  have hgate : (⟨handler, 8, type⟩ : Gate).isInterrupt = true ∧
      (⟨handler, 8, type⟩ : Gate).isGate = true ∧ (⟨handler, 8, type⟩ : Gate).present = true := by
    rcases htypes with rfl | rfl
    · norm_num [Gate.isInterrupt, Gate.isGate, Gate.present, bitField]
    · norm_num [Gate.isInterrupt, Gate.isGate, Gate.present, bitField]
  have hdpl : software = true → cpl ≤ (⟨handler, 8, type⟩ : Gate).dpl := by
    intro hsoftware
    rcases hcpl hsoftware with hcpl | ⟨hvector, hcpl⟩
    · omega
    · rw [htype, if_pos hvector]
      norm_num [Gate.dpl, bitField, hcpl]
  rw [Processor.enter_of_gate hlimit (gate_of_handler A other t h) hgate.2.1 hdpl hgate.2.2,
    throughGate_eq A other hss hhandler, hgate.1]

/-- A vector with a handler that is not the one of the system calls is closed to ring 3. -/
theorem enter_closed (hvector : vector ∈ handled) (hne : vector ≠ 128) :
    (kernelProcessor A other t).enter 3 true vector =
      .error (.generalProtection (8 * vector + 2)) := by
  obtain ⟨handler, hhandler⟩ := handlerOf_some A hvector
  rw [if_neg hne] at hhandler
  have hword := gate_of_handler A other t hhandler
  have hlimit : 8 * vector + 7 ≤ (kernelProcessor A other t).idtLimit := by
    change 8 * vector + 7 ≤ 256 * 8 - 1
    rw [handled] at hvector
    simp only [List.mem_cons, List.not_mem_nil, or_false] at hvector
    omega
  refine Processor.enter_denied hlimit ?_ ?_
  · rw [hword]
    norm_num [Gate.isGate, bitField]
  · rw [hword]
    norm_num [Gate.dpl, bitField]

/-- The instruction {lit}`int` enters the kernel from ring 3 at the vector of the system calls
only. -/
theorem enter_int_iff (hss : t.ss0 = 0x10) :
    (∃ e, (kernelProcessor A other t).enter 3 true vector = .ok e) ↔ vector = 128 := by
  constructor
  · rintro ⟨e, henter⟩
    by_contra hne
    by_cases hvector : vector ∈ handled
    · rw [enter_closed A other hvector hne] at henter
      cases henter
    · rw [Processor.enter_noGate (noGate_of_none A other t hvector)] at henter
      cases henter
  · rintro rfl
    obtain ⟨handler, hhandler⟩ := handlerOf_some A (by decide : 128 ∈ handled)
    exact ⟨_, enter_handler A other hss hhandler fun _ => .inr ⟨rfl, le_rfl⟩⟩

/-- From outside the program the vectors with a handler enter. -/
theorem enter_external_iff (hss : t.ss0 = 0x10) (cpl : Nat) :
    (∃ e, (kernelProcessor A other t).enter cpl false vector = .ok e) ↔ vector ∈ handled := by
  constructor
  · rintro ⟨e, henter⟩
    by_contra hvector
    rw [Processor.enter_noGate (noGate_of_none A other t hvector)] at henter
    cases henter
  · intro hvector
    obtain ⟨handler, hhandler⟩ := handlerOf_some A hvector
    exact ⟨_, enter_handler A other hss hhandler fun hsoftware => absurd hsoftware Bool.false_ne_true⟩

/-- No exception has a gate, so that every exception stops the processor. -/
theorem exception_none (hvector : vector < 32) (cpl : Nat) :
    (kernelProcessor A other t).exception cpl vector = none := by
  refine Processor.exception_shutdown (fun v hv => noGate_of_none A other t ?_) hvector
  rw [handled]
  simp only [List.mem_cons, List.not_mem_nil, or_false]
  omega

/-! ## Ring 3 -/

/-- The kinds of the segments of the table. -/
theorem kinds_segmentAt {i : Nat} (hi : i < 6) :
    (segmentAt A i).isCode = decide (i = 1 ∨ i = 3) ∧
      (segmentAt A i).isReadableCode = decide (i = 1 ∨ i = 3) ∧
      (segmentAt A i).isData = decide (i = 2 ∨ i = 4) ∧
      (segmentAt A i).isWritableData = decide (i = 2 ∨ i = 4) := by
  interval_cases i
  all_goals
    simp [segmentAt, Segment.isCode, Segment.isReadableCode, Segment.isData,
      Segment.isWritableData, bitField]

/-- The privilege levels of the segments of the table. -/
theorem levels_segmentAt {i : Nat} (hi : i < 6) :
    (segmentAt A i).dpl = (if i = 3 ∨ i = 4 then 3 else 0) ∧
      (segmentAt A i).conforming = false ∧ (segmentAt A i).present = decide (i ≠ 0) := by
  interval_cases i
  all_goals
    simp [segmentAt, Segment.dpl, Segment.conforming, Segment.present, bitField]

/-- The selectors that stand for a segment. -/
theorem segment_iff {s : Segment} :
    (kernelProcessor A other t).segment selector = some s ↔
      ∃ i < 6, selector / 4 = 2 * i ∧ s = segmentAt A i := by
  rw [segment_eq]
  constructor
  · intro h
    split at h
    · cases h
    · rename_i hbounds
      rw [Option.some.injEq] at h
      exact ⟨selector / 8, by omega, by omega, h.symm⟩
  · rintro ⟨i, hi, hselector, rfl⟩
    have hindex : selector / 8 = i := by omega
    rw [if_neg (by omega), hindex]

/-- The selectors that ring 3 can load. -/
theorem loadsData_iff :
    (kernelProcessor A other t).LoadsData 3 selector ↔ selector / 4 ∈ [0, 6, 8] := by
  simp only [List.mem_cons, List.not_mem_nil, or_false]
  have hmax : max 3 (selector % 4) = 3 := by omega
  constructor
  · rintro (hnull | ⟨s, hs, hpresent, hkind, hlevel⟩)
    · exact .inl hnull
    · obtain ⟨i, hi, hselector, rfl⟩ := (segment_iff A other).1 hs
      obtain ⟨hcode, hreadable, hdata, -⟩ := kinds_segmentAt A hi
      obtain ⟨hdpl, hconforming, -⟩ := levels_segmentAt A hi
      rw [hconforming, hdpl, hmax] at hlevel
      rcases hlevel with ⟨-, hfalse⟩ | hlevel
      · cases hfalse
      · split at hlevel
        · omega
        · omega
  · have hload : ∀ i, i = 3 ∨ i = 4 → selector / 4 = 2 * i →
        (kernelProcessor A other t).LoadsData 3 selector := by
      intro i hi hselector
      have hi' : i < 6 := by omega
      obtain ⟨hcode, hreadable, hdata, -⟩ := kinds_segmentAt A hi'
      obtain ⟨hdpl, hconforming, hpresent⟩ := levels_segmentAt A hi'
      refine .inr ⟨_, (segment_iff A other).2 ⟨i, hi', hselector, rfl⟩, ?_, ?_, .inr ?_⟩
      · rw [hpresent, decide_eq_true_eq]
        omega
      · rw [hdata, hreadable, decide_eq_true_eq, decide_eq_true_eq]
        omega
      · rw [hdpl, if_pos hi, hmax]
    rintro (hnull | hcode | hdata)
    · exact .inl hnull
    · exact hload 3 (.inl rfl) hcode
    · exact hload 4 (.inr rfl) hdata

/-- Ring 3 jumps to its own code segment only. -/
theorem jumpsTo_iff : (kernelProcessor A other t).JumpsTo 3 selector ↔ selector / 4 = 6 := by
  constructor
  · rintro ⟨-, s, hs, hcode, -, hlevel⟩
    obtain ⟨i, hi, hselector, rfl⟩ := (segment_iff A other).1 hs
    obtain ⟨hdpl, hconforming, -⟩ := levels_segmentAt A hi
    rw [(kinds_segmentAt A hi).1, decide_eq_true_eq] at hcode
    rw [hconforming, hdpl] at hlevel
    rcases hlevel with ⟨hfalse, -⟩ | ⟨-, hlevel, -⟩
    · cases hfalse
    · split at hlevel
      · omega
      · omega
  · intro hselector
    obtain ⟨hdpl, hconforming, hpresent⟩ := levels_segmentAt A (by norm_num : 3 < 6)
    refine ⟨by omega, _, (segment_iff A other).2 ⟨3, by norm_num, hselector, rfl⟩, ?_, ?_,
      .inr ⟨hconforming, hdpl, by omega⟩⟩
    · rw [(kinds_segmentAt A (by norm_num)).1]
      rfl
    · rw [hpresent]
      rfl

/-- The kernel returns to another ring through the code and stack segments of ring 3 only. -/
theorem returnsTo_iff {cs eip ss : Nat} :
    (kernelProcessor A other t).ReturnsTo cs eip ss ↔ cs = 0x1B ∧ ss = 0x23 ∧ eip < 2 ^ 32 := by
  constructor
  · rintro ⟨-, -, houter, hrings, ⟨c, hc, hcode, -, heip, hlevel⟩, s, hs, hdata, -, hsdpl⟩
    obtain ⟨i, hi, hcs, rfl⟩ := (segment_iff A other).1 hc
    obtain ⟨j, hj, hss, rfl⟩ := (segment_iff A other).1 hs
    obtain ⟨hdpl, hconforming, -⟩ := levels_segmentAt A hi
    rw [(kinds_segmentAt A hi).1, decide_eq_true_eq] at hcode
    rw [(kinds_segmentAt A hj).2.2.2, decide_eq_true_eq] at hdata
    rw [(levels_segmentAt A hj).1] at hsdpl
    rw [hconforming, hdpl] at hlevel
    have hcode3 : i = 3 ∧ cs % 4 = 3 := by
      rcases hlevel with ⟨hfalse, -⟩ | ⟨-, hlevel⟩
      · cases hfalse
      · split at hlevel
        · omega
        · omega
    have hlimit : (segmentAt A i).limit = 0xFFFFFFFF := by
      rw [hcode3.1]
      rfl
    rw [hlimit] at heip
    have hdata4 : j = 4 := by
      split at hsdpl
      · omega
      · omega
    exact ⟨by omega, by omega, by omega⟩
  · rintro ⟨rfl, rfl, heip⟩
    refine ⟨by norm_num, by norm_num, by norm_num, rfl,
      ⟨_, (segment_iff A other).2 ⟨3, by norm_num, rfl, rfl⟩, ?_⟩,
      _, (segment_iff A other).2 ⟨4, by norm_num, rfl, rfl⟩, ?_⟩
    · obtain ⟨hdpl, hconforming, hpresent⟩ := levels_segmentAt A (by norm_num : 3 < 6)
      refine ⟨?_, ?_, ?_, .inr ⟨hconforming, hdpl⟩⟩
      · rw [(kinds_segmentAt A (by norm_num)).1]
        rfl
      · rw [hpresent]
        rfl
      · have hlimit : (segmentAt A 3).limit = 0xFFFFFFFF := rfl
        rw [hlimit]
        omega
    · obtain ⟨hdpl, hconforming, hpresent⟩ := levels_segmentAt A (by norm_num : 4 < 6)
      refine ⟨?_, ?_, hdpl⟩
      · rw [(kinds_segmentAt A (by norm_num)).2.2.2]
        rfl
      · rw [hpresent]
        rfl

/-- The task state segment opens no port to ring 3. -/
theorem no_ports (hmap : t.iomapBase = sizeofTss) {iopl : Nat} (hiopl : iopl < 3)
    (port width : Nat) : ¬ (kernelProcessor A other t).AccessesPorts 3 iopl port width := by
  have hword : (kernelProcessor A other t).memory (A.tss + 100) = 2 ^ 16 * t.iomapBase :=
    memory_tss A other t (by norm_num : 25 < 26)
  rintro (hlevel | ⟨hbits, -⟩)
  · exact absurd hlevel (Nat.not_le.2 hiopl)
  · rw [kernelProcessor_task] at hbits
    simp only [hword, hmap, sizeofTss] at hbits
    omega

end Tables

end SoKernel
