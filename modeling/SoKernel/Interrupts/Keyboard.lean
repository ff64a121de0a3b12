import SoKernel.Io.Framebuffer

/-!
# The keyboard

This module models {lit}`interrupts/keyboard.c`.  The handler reads one scan code and echoes it
on the screen at a position of 16 bits that it keeps from one interrupt to the next.  The
position is checked against the first cell of the screen, and not against the last one.

The history field {lit}`cells` has the position at each write of a cell.

Main results:

- Theorem {lit}`onScreen_step`: what one scan code may do to a screen.
- Theorem {lit}`onScreen_run`: what a sequence of them may do.
- Theorem {lit}`safeKeys_of_reach`: keys that do no harm, counted.
- Theorem {lit}`typing_on_screen_iff`: when a sequence of scan codes stays on the screen.
-/

namespace SoKernel

/-- {lit}`scancode_to_ascii`; the entries that are not written out are 0. -/
def scancodeToAscii : List UInt8 :=
  [0, 27, 49, 50, 51, 52, 53, 54, 55, 56, 57, 48, 45, 61, 8,
    9, 113, 119, 101, 114, 116, 121, 117, 105, 111, 112, 91, 93, 10, 0,
    97, 115, 100, 102, 103, 104, 106, 107, 108, 59, 39, 96, 0, 92, 122,
    120, 99, 118, 98, 110, 109, 44, 46, 47, 0, 42, 0, 32]

/-- The screen and {lit}`cursor_pos`. -/
structure Keyboard where
  fb : Framebuffer
  cursorPos : Nat
  cells : List Nat

namespace Keyboard

/-- {lit}`fb_write_cell` at the position of the keyboard. -/
def writeCell (s : Keyboard) (c fg bg : UInt8) : Keyboard :=
  { s with
    fb := s.fb.fbWriteCell (s.cursorPos * 2) c fg bg
    cells := s.cells ++ [s.cursorPos] }

/-- {lit}`keyboard_handler`, for the scan code that it reads. -/
def keyboardHandler (s : Keyboard) (scanCode : UInt8) : Keyboard :=
  if scanCode &&& 0x80 ≠ 0 then s
  else
    let ascii := scancodeToAscii.getD scanCode.toNat 0
    if ascii ≠ 0 then
      let s :=
        if ascii = 10 then
          { s with cursorPos := (s.cursorPos + (80 - s.cursorPos % 80)) % 2 ^ 16 }
        else if ascii = 8 then
          if s.cursorPos > 0 then ({ s with cursorPos := s.cursorPos - 1 } : Keyboard).writeCell 32 0 0
          else s
        else
          let s := s.writeCell ascii 10 15
          { s with cursorPos := (s.cursorPos + 1) % 2 ^ 16 }
      { s with fb := s.fb.fbMoveCursor s.cursorPos }
    else s

/-- The keyboard at boot: nothing was typed. -/
def boot (fb : Framebuffer) : Keyboard :=
  ⟨{ fb with written := [] }, 1000, []⟩

/-- The handler on one scan code after the other. -/
def run (s : Keyboard) (codes : List UInt8) : Keyboard :=
  codes.foldl keyboardHandler s

/-- What was written is on the screen of 80 times 25 cells. -/
structure OnScreen (s : Keyboard) : Prop where
  cells : ∀ cell ∈ s.cells, cell ≤ 1999
  bytes : ∀ offset ∈ s.fb.written, offset < 4000

/-! ## The keys -/

/-- What a key does. -/
inductive Effect where
  | nothing
  | newline
  | erase
  | print
deriving DecidableEq

/-- The effect of a scan code. -/
def effect (scanCode : UInt8) : Effect :=
  if scanCode &&& 0x80 ≠ 0 then .nothing
  else
    let ascii := scancodeToAscii.getD scanCode.toNat 0
    if ascii = 0 then .nothing
    else if ascii = 10 then .newline
    else if ascii = 8 then .erase
    else .print

/-- The position after a key. -/
def nextPos (pos : Nat) : Effect → Nat
  | .nothing => pos
  | .newline => (pos + (80 - pos % 80)) % 2 ^ 16
  | .erase => pos - 1
  | .print => (pos + 1) % 2 ^ 16

/-- The cell that a key writes, when it writes one. -/
def writtenCell (pos : Nat) : Effect → List Nat
  | .nothing => []
  | .newline => []
  | .erase => if 0 < pos then [pos - 1] else []
  | .print => [pos]

/-- The two bytes of each cell. -/
def cellBytes (cells : List Nat) : List Nat :=
  cells.flatMap fun cell => [cell * 2, cell * 2 + 1]

/-- A key does no harm: it prints in a cell of the screen, or erases the cell before, which
is on the screen. -/
def SafeKey (pos : Nat) : Effect → Prop
  | .nothing => True
  | .newline => True
  | .erase => pos ≤ 2000
  | .print => pos < 2000

/-- The keys of a sequence do no harm, each at the position to which those before it lead from
{lit}`pos`. -/
def SafeKeys : Nat → List UInt8 → Prop
  | _, [] => True
  | pos, code :: codes => SafeKey pos (effect code) ∧ SafeKeys (nextPos pos (effect code)) codes

instance decidableSafeKey (pos : Nat) : (e : Effect) → Decidable (SafeKey pos e)
  | .nothing => instDecidableTrue
  | .newline => instDecidableTrue
  | .erase => Nat.decLe pos 2000
  | .print => Nat.decLt pos 2000

instance decidableSafeKeys : (pos : Nat) → (codes : List UInt8) → Decidable (SafeKeys pos codes)
  | _, [] => instDecidableTrue
  | pos, code :: codes =>
      have := decidableSafeKeys (nextPos pos (effect code)) codes
      inferInstanceAs (Decidable (_ ∧ _))

variable {pos : Nat} {codes : List UInt8}

/-- What the handler does with one scan code. -/
structure Handled (s s' : Keyboard) (e : Effect) : Prop where
  cursorPos : s'.cursorPos = nextPos s.cursorPos e
  cells : s'.cells = s.cells ++ writtenCell s.cursorPos e
  written : s'.fb.written = s.fb.written ++ cellBytes (writtenCell s.cursorPos e)

theorem keyboardHandler_handled (s : Keyboard) (scanCode : UInt8) :
    Handled s (s.keyboardHandler scanCode) (effect scanCode) := by
  unfold keyboardHandler effect
  by_cases hrelease : scanCode &&& 0x80 ≠ 0
  · rw [if_pos hrelease, if_pos hrelease]
    exact ⟨rfl, (List.append_nil _).symm, (List.append_nil _).symm⟩
  rw [if_neg hrelease, if_neg hrelease]
  simp only []
  generalize scancodeToAscii.getD scanCode.toNat 0 = ascii
  by_cases hzero : ascii = 0
  · rw [if_neg (by simpa using hzero), if_pos hzero]
    exact ⟨rfl, (List.append_nil _).symm, (List.append_nil _).symm⟩
  rw [if_pos hzero, if_neg hzero]
  by_cases hnewline : ascii = 10
  · rw [if_pos hnewline, if_pos hnewline]
    refine ⟨rfl, (List.append_nil _).symm, ?_⟩
    rw [Framebuffer.fbMoveCursor_written]
    exact (List.append_nil _).symm
  rw [if_neg hnewline, if_neg hnewline]
  by_cases herase : ascii = 8
  · rw [if_pos herase, if_pos herase]
    by_cases hpos : s.cursorPos > 0
    · rw [if_pos hpos]
      refine ⟨rfl, ?_, ?_⟩
      · rw [writtenCell, if_pos hpos]
        rfl
      · rw [Framebuffer.fbMoveCursor_written, writtenCell, if_pos hpos]
        rfl
    · rw [if_neg hpos]
      refine ⟨?_, ?_, ?_⟩
      · change s.cursorPos = s.cursorPos - 1
        omega
      · rw [writtenCell, if_neg hpos, List.append_nil]
      · rw [Framebuffer.fbMoveCursor_written, writtenCell, if_neg hpos]
        exact (List.append_nil _).symm
  · rw [if_neg herase, if_neg herase]
    refine ⟨rfl, rfl, ?_⟩
    rw [Framebuffer.fbMoveCursor_written]
    rfl

theorem safeKey_iff (pos : Nat) (e : Effect) :
    SafeKey pos e ↔ ∀ cell ∈ writtenCell pos e, cell ≤ 1999 := by
  cases e with
  | nothing => simp [SafeKey, writtenCell]
  | newline => simp [SafeKey, writtenCell]
  | erase =>
      simp only [SafeKey, writtenCell]
      split
      · rw [List.forall_mem_singleton]
        omega
      · simp only [List.not_mem_nil, false_imp_iff, implies_true, iff_true]
        omega
  | print =>
      simp only [SafeKey, writtenCell]
      rw [List.forall_mem_singleton]
      omega

/-- The bytes of a cell are on the screen when the cell is. -/
theorem cellBytes_lt {cells : List Nat} (h : ∀ cell ∈ cells, cell ≤ 1999) :
    ∀ offset ∈ cellBytes cells, offset < 4000 := by
  intro offset hoffset
  obtain ⟨cell, hcell, hbyte⟩ := List.mem_flatMap.1 hoffset
  have hle := h cell hcell
  rcases List.mem_pair.1 hbyte with rfl | rfl
  · omega
  · omega

/-- One scan code. -/
theorem onScreen_step (s : Keyboard) (scanCode : UInt8) :
    OnScreen (s.keyboardHandler scanCode) ↔
      OnScreen s ∧ SafeKey s.cursorPos (effect scanCode) := by
  have hstep := keyboardHandler_handled s scanCode
  rw [safeKey_iff]
  constructor
  · intro h
    have hcells := h.cells
    have hbytes := h.bytes
    rw [hstep.cells] at hcells
    rw [hstep.written] at hbytes
    exact ⟨⟨fun cell hc => hcells cell (List.mem_append_left _ hc),
      fun offset ho => hbytes offset (List.mem_append_left _ ho)⟩,
      fun cell hc => hcells cell (List.mem_append_right _ hc)⟩
  · intro h
    constructor
    · rw [hstep.cells]
      exact List.forall_mem_append.2 ⟨h.1.cells, h.2⟩
    · rw [hstep.written]
      exact List.forall_mem_append.2 ⟨h.1.bytes, cellBytes_lt h.2⟩

/-- A sequence of scan codes. -/
theorem onScreen_run (s : Keyboard) (codes : List UInt8) :
    OnScreen (s.run codes) ↔ OnScreen s ∧ SafeKeys s.cursorPos codes := by
  induction codes generalizing s with
  | nil => exact (and_iff_left trivial).symm
  | cons code codes ih =>
      change OnScreen ((s.keyboardHandler code).run codes) ↔ _
      rw [ih, onScreen_step, (keyboardHandler_handled s code).cursorPos, and_assoc, SafeKeys]

theorem onScreen_boot (fb : Framebuffer) : OnScreen (boot fb) :=
  ⟨List.forall_mem_nil _, List.forall_mem_nil _⟩

/-- A sequence of scan codes stays on the screen if and only if every key is pressed where it
does no harm, counted from the position at boot. -/
theorem typing_on_screen_iff (fb : Framebuffer) (codes : List UInt8) :
    OnScreen ((boot fb).run codes) ↔ SafeKeys 1000 codes := by
  rw [onScreen_run, and_iff_right (onScreen_boot fb)]
  rfl

/-- A letter and its release, Enter, and a backspace. -/
example : SafeKeys 1000 [0x1E, 0x9E, 0x1C, 0x0E] := by decide

/-- How far a key moves the position at most. -/
def reach : Effect → Nat
  | .nothing => 0
  | .newline => 80
  | .erase => 0
  | .print => 1

theorem nextPos_le (pos : Nat) (e : Effect) : nextPos pos e ≤ pos + reach e := by
  cases e with
  | nothing => exact le_rfl
  | newline =>
      have hmod := Nat.mod_le (pos + (80 - pos % 80)) (2 ^ 16)
      simp only [nextPos, reach]
      omega
  | erase => exact Nat.sub_le _ _
  | print => exact Nat.mod_le _ _

/-- Keys that together reach no further than the last cell do no harm. -/
theorem safeKeys_of_reach (h : pos + (codes.map fun code => reach (effect code)).sum ≤ 2000) :
    SafeKeys pos codes := by
  induction codes generalizing pos with
  | nil => trivial
  | cons code codes ih =>
      rw [List.map_cons, List.sum_cons] at h
      have hnext := nextPos_le pos (effect code)
      refine ⟨?_, ih (by omega)⟩
      cases hkey : effect code with
      | nothing => trivial
      | newline => trivial
      | erase =>
          change pos ≤ 2000
          omega
      | print =>
          rw [hkey, reach] at h
          change pos < 2000
          omega

/-- The key of the letter a, pressed until the position is behind the last cell. -/
theorem letters_not_safe {n : Nat} (h : pos + n = 2000) :
    ¬ SafeKeys pos (List.replicate (n + 1) 0x1E) := by
  have hkey : effect 0x1E = .print := by decide
  induction n generalizing pos with
  | zero =>
      rintro ⟨hlast, -⟩
      rw [hkey] at hlast
      exact absurd h hlast.ne
  | succ n ih =>
      rintro ⟨-, hrest⟩
      rw [hkey, nextPos, Nat.mod_eq_of_lt (by omega)] at hrest
      exact ih (by omega) hrest

/-- The letter a, 1001 times: the last one goes to the bytes behind the screen. -/
theorem typing_leaves_screen :
    ¬ OnScreen ((boot blankFramebuffer).run (List.replicate 1001 0x1E)) := by
  rw [onScreen_run]
  rintro ⟨-, hsafe⟩
  exact letters_not_safe (n := 1000) rfl hsafe

end Keyboard

end SoKernel
