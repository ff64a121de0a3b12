import SoKernel.Memory.FrameAllocator

/-!
# The framebuffer

This module models {lit}`io/io.c`: the text screen of 25 rows with 80 cells of two bytes, and the
cursor of the display controller, which takes its position in two halves through a pair of
ports.  {lit}`fb_write` keeps two positions, the byte that it writes next and the cell at which
the cursor stands.

The offsets that are written are recorded.

Main results:

- Theorem {lit}`fbMoveCursor_eq`: the four port writes set the cursor.
- Theorem {lit}`newline_puts_out_of_step`: after a newline the cell of the cursor is no longer the
  half of the byte position.
- Theorem {lit}`fb_write_layout_iff`: which texts {lit}`fb_write` lays out as a terminal would.
-/

namespace SoKernel

/-- The framebuffer and the registers of the display controller: the index that selects a
register, and the location of the cursor. -/
structure Framebuffer where
  bytes : Nat → UInt8
  written : List Nat
  index : Nat
  cursor : Nat

namespace Framebuffer

/-! ## The source functions -/

/-- {lit}`fb_write_cell`. -/
def fbWriteCell (fb : Framebuffer) (posicaoChar : Nat) (c fg bg : UInt8) : Framebuffer :=
  { fb with
    bytes := Function.update (Function.update fb.bytes posicaoChar c) (posicaoChar + 1)
      ((fg &&& 0x0F) <<< 4 ||| (bg &&& 0x0F))
    written := fb.written ++ [posicaoChar, posicaoChar + 1] }

/-- {lit}`outb` to a port of the display controller. -/
def outb (fb : Framebuffer) (port data : Nat) : Framebuffer :=
  if port = 0x3D4 then { fb with index := data }
  else if port = 0x3D5 then
    if fb.index = 14 then { fb with cursor := data * 256 + fb.cursor % 256 }
    else if fb.index = 15 then { fb with cursor := fb.cursor / 256 * 256 + data }
    else fb
  else fb

/-- {lit}`fb_move_cursor`. -/
def fbMoveCursor (fb : Framebuffer) (pos : Nat) : Framebuffer :=
  let fb := fb.outb 0x3D4 14
  let fb := fb.outb 0x3D5 (pos / 256 % 256)
  let fb := fb.outb 0x3D4 15
  fb.outb 0x3D5 (pos % 256)

end Framebuffer

/-- The variables of {lit}`fb_write`. -/
structure FbWriter where
  fb : Framebuffer
  posCursor : Nat
  posChar : Nat
  i : Nat

namespace FbWriter

/-- One pass of the loop of {lit}`fb_write`. -/
def step (s : FbWriter) (c : UInt8) : FbWriter :=
  if c = 10 then
    let gapAteFinal := (80 - s.i % 80) * 2
    { s with
      posChar := u32 (s.posChar + gapAteFinal)
      posCursor := (s.posCursor + gapAteFinal) % 2 ^ 16
      i := s.i + 1 }
  else
    let fb := s.fb.fbWriteCell s.posChar c 10 15
    let posCursor := (s.posCursor + 1) % 2 ^ 16
    ⟨fb.fbMoveCursor posCursor, posCursor, u32 (s.posChar + 2), s.i + 1⟩

/-- {lit}`fb_write`, with its variables at the end. -/
def fbWrite (fb : Framebuffer) (text : List UInt8) : FbWriter :=
  text.foldl step ⟨fb.fbMoveCursor 0, 0, 0, 0⟩

end FbWriter

/-! ## The reference -/

/-- The cell that follows a text on a terminal with 80 columns. -/
def refCell (text : List UInt8) : Nat :=
  text.foldl (fun cell c => if c = 10 then (cell / 80 + 1) * 80 else cell + 1) 0

/-- The characters of a text lie in the 25 rows of the screen. -/
def FitsScreen (text : List UInt8) : Prop :=
  ∀ before c, before ++ [c] <+: text → c ≠ 10 → refCell before < 2000

/-- A text is laid out as on a terminal: its characters are in their cells, and after each one
of the kind {lit}`moves` the cursor stands at the next cell, which is half the offset of the next
byte. -/
structure LaidOut (moves : UInt8 → Prop) (fb : Framebuffer) (text : List UInt8) : Prop where
  cells : ∀ before c, before ++ [c] <+: text → c ≠ 10 →
    (FbWriter.fbWrite fb text).fb.bytes (2 * refCell before) = c
  cursor : ∀ before c, before ++ [c] <+: text → moves c →
    (FbWriter.fbWrite fb (before ++ [c])).fb.cursor = refCell (before ++ [c])
  half : ∀ before c, before ++ [c] <+: text → moves c →
    (FbWriter.fbWrite fb (before ++ [c])).posChar =
      2 * (FbWriter.fbWrite fb (before ++ [c])).fb.cursor

/-- Newlines come after all other characters. -/
def NewlinesLast (text : List UInt8) : Prop :=
  ∀ before c, before ++ [c] <+: text → c ≠ 10 → 10 ∉ before

/-- A character moves the terminal on by a cell, or to the next row. -/
theorem refCell_append (text : List UInt8) (c : UInt8) :
    refCell (text ++ [c]) = if c = 10 then (refCell text / 80 + 1) * 80 else refCell text + 1 := by
  rw [refCell, List.foldl_append]
  rfl

/-- Without newlines every character takes a cell. -/
theorem refCell_plain {text : List UInt8} (h : 10 ∉ text) : refCell text = text.length := by
  induction text using List.reverseRecOn with
  | nil => rfl
  | append_singleton text c ih =>
      rw [List.mem_append, not_or, List.mem_singleton] at h
      rw [refCell_append, if_neg (Ne.symm h.2), ih h.1, List.length_append, List.length_singleton]

/-- Every newline takes a row. -/
theorem count_le_refCell (text : List UInt8) :
    80 * text.count 10 ≤ refCell text ∧ text.length ≤ refCell text := by
  induction text using List.reverseRecOn with
  | nil => exact ⟨le_rfl, le_rfl⟩
  | append_singleton text c ih =>
      rw [refCell_append, List.count_append, List.length_append, List.length_singleton]
      split
      · rename_i hc
        rw [hc, List.count_singleton_self]
        omega
      · rename_i hc
        rw [List.count_singleton, if_neg (by simpa using hc)]
        omega

namespace Framebuffer

/-- The ports do not reach the screen. -/
theorem outb_written (fb : Framebuffer) (port data : Nat) :
    (fb.outb port data).written = fb.written := by
  rw [outb]
  split_ifs <;> rfl

/-- Moving the cursor writes nothing on the screen. -/
theorem fbMoveCursor_written (fb : Framebuffer) (pos : Nat) :
    (fb.fbMoveCursor pos).written = fb.written := by
  simp only [fbMoveCursor, outb_written]

/-- The four port writes set the cursor. -/
theorem fbMoveCursor_eq (fb : Framebuffer) {pos : Nat} (h : pos < 2 ^ 16) :
    fb.fbMoveCursor pos = { fb with index := 15, cursor := pos } := by
  simp only [fbMoveCursor, outb]
  norm_num
  omega

end Framebuffer

namespace FbWriter

variable {fb : Framebuffer} {text : List UInt8}

/-- A text is written character by character. -/
theorem fbWrite_append (fb : Framebuffer) (text : List UInt8) (c : UInt8) :
    fbWrite fb (text ++ [c]) = (fbWrite fb text).step c := by
  rw [fbWrite, List.foldl_append]
  rfl

/-- A newline writes nothing. -/
theorem step_newline (s : FbWriter) : (s.step 10).fb = s.fb := by
  rw [step, if_pos rfl]

/-- The variables when no newline was met: both positions are right. -/
structure Plain (s : FbWriter) (text : List UInt8) : Prop where
  i : s.i = text.length
  posChar : s.posChar = 2 * text.length
  posCursor : s.posCursor = text.length
  cursor : s.fb.cursor = text.length
  cells : ∀ j (hj : j < text.length), s.fb.bytes (2 * j) = text[j]

/-- A text without newlines is written cell by cell. -/
theorem Plain.run (fb : Framebuffer) (h : 10 ∉ text) (hlength : text.length < 2 ^ 16) :
    Plain (fbWrite fb text) text := by
  induction text using List.reverseRecOn with
  | nil =>
      refine ⟨rfl, rfl, rfl, ?_, fun j hj => by cases hj⟩
      change (fb.fbMoveCursor 0).cursor = 0
      rw [fb.fbMoveCursor_eq (by norm_num)]
  | append_singleton text c ih =>
      rw [List.mem_append, not_or, List.mem_singleton] at h
      rw [List.length_append, List.length_singleton] at hlength
      have hplain := ih h.1 (by omega)
      have hi := hplain.i
      have hposChar := hplain.posChar
      have hposCursor := hplain.posCursor
      have hnext : ((fbWrite fb text).posCursor + 1) % 2 ^ 16 = text.length + 1 := by omega
      rw [fbWrite_append, step, if_neg (Ne.symm h.2)]
      simp only [hnext]
      rw [Framebuffer.fbMoveCursor_eq _ (by omega)]
      refine ⟨?_, ?_, ?_, ?_, fun j hj => ?_⟩
      · simp only [List.length_append, List.length_singleton]
        omega
      · simp only [List.length_append, List.length_singleton, u32]
        omega
      · simp
      · simp
      · rw [List.length_append, List.length_singleton] at hj
        simp only [Framebuffer.fbWriteCell, hposChar]
        rw [Function.update_of_ne (by omega)]
        by_cases hlast : j = text.length
        · subst hlast
          simp
        · have hj' : j < text.length := by omega
          rw [Function.update_of_ne (by omega), hplain.cells j hj', List.getElem_append_left hj']

/-- Newlines at the end leave the screen alone. -/
theorem fbWrite_newlines (fb : Framebuffer) (text : List UInt8) (n : Nat) :
    (fbWrite fb (text ++ List.replicate n 10)).fb = (fbWrite fb text).fb := by
  induction n with
  | zero => rw [List.replicate_zero, List.append_nil]
  | succ n ih =>
      rw [List.replicate_succ', ← List.append_assoc, fbWrite_append, step_newline, ih]

/-- The two positions after any text: each newline moves the one by a number of cells and the
other by twice that number. -/
theorem fbWrite_positions (fb : Framebuffer) (text : List UInt8) :
    ∃ gaps, text.count 10 ≤ gaps ∧ gaps ≤ 80 * text.count 10 ∧
      (fbWrite fb text).posChar = u32 (2 * (text.length - text.count 10 + gaps)) ∧
      (fbWrite fb text).posCursor = (text.length - text.count 10 + 2 * gaps) % 2 ^ 16 := by
  induction text using List.reverseRecOn with
  | nil => exact ⟨0, le_rfl, le_rfl, rfl, rfl⟩
  | append_singleton text c ih =>
      obtain ⟨gaps, hlo, hhi, hposChar, hposCursor⟩ := ih
      have hcount := text.count_le_length (a := 10)
      rw [fbWrite_append, step, List.count_append, List.length_append, List.length_singleton]
      split
      · rename_i hc
        rw [hc, List.count_singleton_self]
        refine ⟨gaps + (80 - (fbWrite fb text).i % 80), by omega, by omega, ?_, ?_⟩
        · simp only [hposChar, u32]
          omega
        · simp only [hposCursor]
          omega
      · rename_i hc
        rw [List.count_singleton, if_neg (by simpa using hc)]
        refine ⟨gaps, by omega, by omega, ?_, ?_⟩
        · simp only [hposChar, u32]
          omega
        · simp only [hposCursor]
          omega

/-- Only one place writes the cursor. -/
theorem step_cursor (s : FbWriter) {c : UInt8} (hc : c ≠ 10) :
    (s.step c).fb.cursor = (s.step c).posCursor := by
  rw [step, if_neg hc]
  simp only []
  rw [Framebuffer.fbMoveCursor_eq _ (Nat.mod_lt _ (by norm_num))]

end FbWriter

/-! ## Which texts are laid out -/

section Layout

variable {text before after : List UInt8} {c : UInt8} {fb : Framebuffer}

/-- The beginning of a text fits the screen when the text does. -/
theorem FitsScreen.mono (h : FitsScreen text) (hpre : before <+: text) : FitsScreen before :=
  fun b c hb hc => h b c (hb.trans hpre) hc

/-- The terminal only moves on. -/
theorem refCell_mono (hpre : before <+: text) : refCell before ≤ refCell text := by
  obtain ⟨after, rfl⟩ := hpre
  induction after using List.reverseRecOn with
  | nil => rw [List.append_nil]
  | append_singleton after c ih =>
      rw [← List.append_assoc, refCell_append]
      split
      · omega
      · omega

/-- A text that ends on the screen fits it. -/
theorem fitsScreen_of_refCell (h : refCell text ≤ 2000) : FitsScreen text := by
  intro b c hb hc
  have hle := refCell_mono hb
  rw [refCell_append, if_neg hc] at hle
  omega

/-- The text before a character is shorter than the screen. -/
theorem FitsScreen.length_lt (h : FitsScreen text) (hpre : before ++ [c] <+: text)
    (hc : c ≠ 10) : before.length < 2000 ∧ 80 * before.count 10 < 2000 := by
  have hcell := h before c hpre hc
  have hcount := count_le_refCell before
  omega

/-- A text without newlines that fits the screen has at most 2000 characters. -/
theorem FitsScreen.plain_length (h : FitsScreen text) (hplain : 10 ∉ text) :
    text.length ≤ 2000 := by
  induction text using List.reverseRecOn with
  | nil => exact Nat.zero_le _
  | append_singleton text c _ =>
      rw [List.mem_append, not_or, List.mem_singleton] at hplain
      have hlt := h.length_lt (List.prefix_refl _) (Ne.symm hplain.2)
      rw [List.length_append, List.length_singleton]
      omega

/-- A text whose newlines come last is a text without newlines with some newlines behind it. -/
theorem NewlinesLast.split (h : NewlinesLast text) :
    ∃ line n, text = line ++ List.replicate n 10 ∧ 10 ∉ line := by
  induction text using List.reverseRecOn with
  | nil => exact ⟨[], 0, rfl, List.not_mem_nil⟩
  | append_singleton text c ih =>
      by_cases hc : c = 10
      · obtain ⟨line, n, rfl, hline⟩ :=
          ih fun b d hb hd => h b d (hb.trans (List.prefix_append _ _)) hd
        refine ⟨line, n + 1, ?_, hline⟩
        rw [hc, List.replicate_succ', List.append_assoc]
      · have htext := h text c (List.prefix_refl _) hc
        refine ⟨text ++ [c], 0, (List.append_nil _).symm, ?_⟩
        rw [List.mem_append, not_or, List.mem_singleton]
        exact ⟨htext, Ne.symm hc⟩

/-- The characters of a text with some newlines behind it are those of the text. -/
theorem prefix_of_newlines {n : Nat} (h : before ++ [c] <+: text ++ List.replicate n 10)
    (hc : c ≠ 10) : before ++ [c] <+: text := by
  induction n with
  | zero => rwa [List.replicate_zero, List.append_nil] at h
  | succ n ih =>
      rw [List.replicate_succ', ← List.append_assoc, List.prefix_concat_iff] at h
      rcases h with h | h
      · exact absurd (List.append_inj_right' h rfl) (by simpa using hc)
      · exact ih h

/-- A text without newlines is laid out, also with newlines behind it. -/
theorem laidOut_of_plain (fb : Framebuffer) (hplain : 10 ∉ text) (hlength : text.length ≤ 2000)
    (n : Nat) : LaidOut (fun c => c ≠ 10) fb (text ++ List.replicate n 10) := by
  have hrun : ∀ b c, b ++ [c] <+: text →
      (10 : UInt8) ∉ b ∧ FbWriter.Plain (FbWriter.fbWrite fb (b ++ [c])) (b ++ [c]) := by
    intro b c hb
    have hline : (10 : UInt8) ∉ b ++ [c] := fun h => hplain (hb.subset h)
    refine ⟨fun h => hline (List.mem_append_left _ h), FbWriter.Plain.run fb hline ?_⟩
    exact (hb.length_le.trans hlength).trans_lt (by norm_num)
  refine ⟨fun b c hb hc => ?_, fun b c hb hc => ?_, fun b c hb hc => ?_⟩
  · have hb := prefix_of_newlines hb hc
    have hall := FbWriter.Plain.run fb hplain (hlength.trans_lt (by norm_num))
    have hj : b.length < text.length := by
      have := hb.length_le
      rw [List.length_append, List.length_singleton] at this
      omega
    rw [FbWriter.fbWrite_newlines, refCell_plain (hrun b c hb).1, hall.cells _ hj]
    obtain ⟨after, rfl⟩ := hb
    simp
  · have hb := prefix_of_newlines hb hc
    have hline : (10 : UInt8) ∉ b ++ [c] := fun h => hplain (hb.subset h)
    rw [(hrun b c hb).2.cursor, refCell_plain hline]
  · have hb := prefix_of_newlines hb hc
    rw [(hrun b c hb).2.posChar, (hrun b c hb).2.cursor]

/-- After a newline the two positions are no longer in step. -/
theorem newline_puts_out_of_step (h : FitsScreen text) (hpre : before ++ [c] <+: text)
    (hc : c ≠ 10) (hnewline : 10 ∈ before) :
    (FbWriter.fbWrite fb (before ++ [c])).posChar ≠
      2 * (FbWriter.fbWrite fb (before ++ [c])).fb.cursor := by
  obtain ⟨gaps, hlo, hhi, hposChar, hposCursor⟩ :=
    FbWriter.fbWrite_positions fb (before ++ [c])
  have hlength := h.length_lt hpre hc
  have hcount : 0 < before.count 10 := List.count_pos_iff.2 hnewline
  have hle := before.count_le_length (a := 10)
  have hcursor : (FbWriter.fbWrite fb (before ++ [c])).fb.cursor =
      (FbWriter.fbWrite fb (before ++ [c])).posCursor := by
    rw [FbWriter.fbWrite_append]
    exact FbWriter.step_cursor _ hc
  have hlast : (before ++ [c]).count 10 = before.count 10 := by
    rw [List.count_append, List.count_singleton, if_neg (by simpa using hc), Nat.add_zero]
  rw [hlast] at hlo hhi hposChar hposCursor
  rw [List.length_append, List.length_singleton] at hposChar hposCursor
  rw [hcursor, hposChar, hposCursor, u32]
  omega

/-- No position is sent for a newline. -/
theorem newline_leaves_cursor (h : FitsScreen text) (hpre : before ++ [10] <+: text)
    (hplain : 10 ∉ before) :
    (FbWriter.fbWrite fb (before ++ [10])).fb.cursor ≠ refCell (before ++ [10]) := by
  have hbefore := h.mono ((List.prefix_append before [10]).trans hpre)
  have hlength := hbefore.plain_length hplain
  have hrun := FbWriter.Plain.run fb hplain (hlength.trans_lt (by norm_num))
  rw [FbWriter.fbWrite_append, FbWriter.step_newline, hrun.cursor, refCell_append, if_pos rfl,
    refCell_plain hplain]
  omega

/-- When a text has a newline, it has a first one. -/
theorem first_newline (h : 10 ∈ text) : ∃ before, before ++ [10] <+: text ∧ 10 ∉ before := by
  obtain ⟨before, after, rfl, hbefore⟩ := List.eq_append_cons_of_mem h
  exact ⟨before, ⟨after, by simp⟩, hbefore⟩

/-- {lit}`fb_write` lays out a text if and only if it has no newline.  When the cursor is looked
at only where a position is sent, newlines that no other character follows do no harm. -/
theorem fb_write_layout_iff (fb : Framebuffer) (text : List UInt8) (hfits : FitsScreen text) :
    (LaidOut (fun _ => True) fb text ↔ 10 ∉ text) ∧
      (LaidOut (fun c => c ≠ 10) fb text ↔ NewlinesLast text) := by
  refine ⟨⟨fun h hmem => ?_, fun h => ?_⟩, fun h b c hb hc hmem => ?_, fun h => ?_⟩
  · obtain ⟨before, hpre, hbefore⟩ := first_newline hmem
    exact newline_leaves_cursor hfits hpre hbefore (h.cursor before 10 hpre trivial)
  · have hline := laidOut_of_plain fb h (hfits.plain_length h) 0
    rw [List.replicate_zero, List.append_nil] at hline
    have hne : ∀ b c, b ++ [c] <+: text → c ≠ 10 := by
      rintro b c hb rfl
      exact h (hb.subset (List.mem_append_right _ List.mem_cons_self))
    exact ⟨hline.cells, fun b c hb _ => hline.cursor b c hb (hne b c hb),
      fun b c hb _ => hline.half b c hb (hne b c hb)⟩
  · exact newline_puts_out_of_step hfits hb hc hmem (h.half b c hb hc)
  · obtain ⟨line, n, rfl, hline⟩ := h.split
    have hlength := (hfits.mono (List.prefix_append line _)).plain_length hline
    exact laidOut_of_plain fb hline hlength n

end Layout

/-- A screen on which nothing was written. -/
def blankFramebuffer : Framebuffer :=
  ⟨fun _ => 0, [], 0, 0⟩

theorem fb_write_layout_greeting :
    LaidOut (fun _ => True) blankFramebuffer [72, 105] ∧
      LaidOut (fun c => c ≠ 10) blankFramebuffer [72, 105] := by
  have hfits : FitsScreen [72, 105] := fitsScreen_of_refCell (by decide)
  have hiff := fb_write_layout_iff blankFramebuffer [72, 105] hfits
  refine ⟨hiff.1.2 (by decide), hiff.2.2 fun b c hb _ hmem => ?_⟩
  have hline : (10 : UInt8) ∉ [72, 105] := by decide
  exact hline (hb.subset (List.mem_append_left _ hmem))

/-- The text {lit}`"a\n\nb"`.  Its last character belongs in cell 160 and is written to cell 158,
and the cursor goes to cell 316. -/
theorem fb_write_misplaces :
    FitsScreen [97, 10, 10, 98] ∧
      ¬ LaidOut (fun _ => True) blankFramebuffer [97, 10, 10, 98] ∧
      ¬ LaidOut (fun c => c ≠ 10) blankFramebuffer [97, 10, 10, 98] := by
  have hcell : (FbWriter.fbWrite blankFramebuffer [97, 10, 10, 98]).fb.bytes 320 ≠ 98 := by
    decide
  refine ⟨fitsScreen_of_refCell (by decide), fun h => ?_, fun h => ?_⟩
  · exact hcell (h.cells [97, 10, 10] 98 (List.prefix_refl _) (by decide))
  · exact hcell (h.cells [97, 10, 10] 98 (List.prefix_refl _) (by decide))

end SoKernel
