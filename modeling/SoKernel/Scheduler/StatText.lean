import Mathlib.Data.List.DropRight
import Mathlib.Data.Nat.Digits.Lemmas
import SoKernel.Kernel.State
import SoKernel.Library.CharBuffer

/-!
# The text of the log

This module models how {lit}`log_process_stat` and {lit}`log_sjf_pick` build a line in an array
on the stack, what {lit}`serial_write` sends of it, and how the notebook
{lit}`scheduling_compare.ipynb` reads a line back.

Main results:

- Theorem {lit}`appendU32_eq`: {lit}`append_u32` writes the decimal digits of its argument.
- Theorem {lit}`stat_line_round_trip`: a line fits its array, and the notebook reads the four
  values that were logged.
-/

namespace SoKernel

/-! ## The source functions -/

section Append

variable {n : Nat}

/-- The first loop of {lit}`append_u32`; {lit}`room` is what is left of {lit}`tmp`. -/
def digitLoop : Nat → CharBuffer 10 → Nat → Nat → CharBuffer 10 × Nat
  | 0, tmp, len, _ => (tmp, len)
  | room + 1, tmp, len, value =>
      if 0 < value then
        digitLoop room (tmp.write len (UInt8.ofNat (48 + value % 10))) (len + 1) (value / 10)
      else (tmp, len)

/-- The second loop of {lit}`append_u32`: the digits in reverse. -/
def reverseLoop (tmp : CharBuffer 10) : Nat → CharBuffer n → Nat → CharBuffer n × Nat
  | 0, buf, pos => (buf, pos)
  | len + 1, buf, pos => reverseLoop tmp len (buf.write pos (tmp.bytes len)) (pos + 1)

/-- {lit}`append_u32`. -/
def appendU32 (buf : CharBuffer n) (pos value : Nat) : CharBuffer n × Nat :=
  if value = 0 then (buf.write pos 48, pos + 1)
  else
    let digits := digitLoop 10 (.fresh fun _ => 0) 0 value
    reverseLoop digits.1 digits.2 buf pos

/-- {lit}`append_literal`. -/
def appendLiteral (buf : CharBuffer n) (pos : Nat) : List UInt8 → CharBuffer n × Nat
  | [] => (buf, pos)
  | c :: text => appendLiteral (buf.write pos c) (pos + 1) text

/-- {lit}`line[pos++] = c`. -/
def appendChar (buf : CharBuffer n) (pos : Nat) (c : UInt8) : CharBuffer n × Nat :=
  (buf.write pos c, pos + 1)

end Append

/-- The text "[STAT] ". -/
def statTag : List UInt8 :=
  [91, 83, 84, 65, 84, 93, 32]

/-- The array that {lit}`log_process_stat` sends. -/
def statBuffer (junk : Nat → UInt8) (pid ticks eventId contextId : Nat) : CharBuffer 64 :=
  let r := appendLiteral (.fresh junk) 0 statTag
  let r := appendU32 r.1 r.2 pid
  let r := appendChar r.1 r.2 44
  let r := appendU32 r.1 r.2 ticks
  let r := appendChar r.1 r.2 44
  let r := appendU32 r.1 r.2 eventId
  let r := appendChar r.1 r.2 44
  let r := appendU32 r.1 r.2 contextId
  r.1.write r.2 0

/-- The texts "[SJF] Picking PID " and " with Burst ". -/
def sjfTexts : List UInt8 × List UInt8 :=
  ([91, 83, 74, 70, 93, 32, 80, 105, 99, 107, 105, 110, 103, 32, 80, 73, 68, 32],
    [32, 119, 105, 116, 104, 32, 66, 117, 114, 115, 116, 32])

/-- The array that {lit}`log_sjf_pick` sends. -/
def sjfBuffer (junk : Nat → UInt8) (pid burst : Nat) : CharBuffer 96 :=
  let r := appendLiteral (.fresh junk) 0 sjfTexts.1
  let r := appendU32 r.1 r.2 pid
  let r := appendLiteral r.1 r.2 sjfTexts.2
  let r := appendU32 r.1 r.2 burst
  r.1.write r.2 0

/-- The characters that {lit}`serial_write` sends: the string and a newline. -/
def serialWrite {n : Nat} (log : CharBuffer n) : List UInt8 :=
  log.string ++ [10]

/-! ## The notebook -/

/-- The ASCII characters that {lit}`strip` removes. -/
def pyWhitespace (c : UInt8) : Bool :=
  9 ≤ c && c ≤ 13 || 28 ≤ c && c ≤ 32

/-- Python's {lit}`strip`. -/
def pyStrip (line : List UInt8) : List UInt8 :=
  (line.dropWhile pyWhitespace).rdropWhile pyWhitespace

/-- The fields of a line of the log; no fields when the line is not of the form or
{lit}`split` has no second part. -/
def parseStat (line : List UInt8) : Option (List (List UInt8)) :=
  if ([91, 83, 84, 65, 84, 93] : List UInt8).isPrefixOf line then
    ((pyStrip line).splitOn 32)[1]?.map fun part => part.splitOn 44
  else none

/-- The value of a decimal numeral. -/
def decimalValue (text : List UInt8) : Option Nat :=
  if text ≠ [] ∧ ∀ c ∈ text, 48 ≤ c ∧ c ≤ 57 then
    some (Nat.ofDigits 10 (text.reverse.map fun c => c.toNat - 48))
  else none

/-! ## The digits of a number -/

/-- The decimal numeral of a number. -/
def decimal (value : Nat) : List UInt8 :=
  if value = 0 then [48] else ((Nat.digits 10 value).map fun d => UInt8.ofNat (48 + d)).reverse

theorem decimal_ne_nil (value : Nat) : decimal value ≠ [] := by
  unfold decimal
  split
  · exact List.cons_ne_nil _ _
  · rename_i hvalue
    simpa [Nat.digits_eq_nil_iff_eq_zero] using hvalue

/-- A numeral has digits only. -/
theorem decimal_digits {value : Nat} {c : UInt8} (h : c ∈ decimal value) :
    48 ≤ c ∧ c ≤ 57 := by
  unfold decimal at h
  split at h
  · rw [List.mem_singleton] at h
    subst h
    decide
  · rw [List.mem_reverse, List.mem_map] at h
    obtain ⟨d, hd, rfl⟩ := h
    have hlt := Nat.digits_lt_base (by norm_num : 1 < 10) hd
    interval_cases d <;> decide

theorem decimal_length {value : Nat} (h : value < 2 ^ 32) : (decimal value).length ≤ 10 := by
  unfold decimal
  split
  · exact Nat.le_of_ble_eq_true rfl
  · rw [List.length_reverse, List.length_map, Nat.digits_length_le_iff (by norm_num)]
    omega

/-- The value of a numeral. -/
theorem decimalValue_decimal (value : Nat) : decimalValue (decimal value) = some value := by
  rw [decimalValue, if_pos ⟨decimal_ne_nil value, fun c hc => decimal_digits hc⟩]
  unfold decimal
  split
  · rename_i hvalue
    rw [hvalue]
    rfl
  · have hdigits : ((Nat.digits 10 value).map fun d => UInt8.ofNat (48 + d)).map
        (fun c => c.toNat - 48) = Nat.digits 10 value := by
      rw [List.map_map]
      conv_rhs => rw [← List.map_id (Nat.digits 10 value)]
      refine List.map_congr_left fun d hd => ?_
      have hlt := Nat.digits_lt_base (by norm_num : 1 < 10) hd
      simp only [Function.comp_apply, UInt8.toNat_ofNat', id_eq]
      omega
    rw [List.reverse_reverse, hdigits, Nat.ofDigits_digits]

/-! ## The arrays -/

section Arrays

variable {n : Nat}

theorem appendLiteral_eq (buf : CharBuffer n) (pos : Nat) (text : List UInt8) :
    appendLiteral buf pos text = (buf.put pos text, pos + text.length) := by
  induction text generalizing buf pos with
  | nil => rfl
  | cons c text ih =>
      rw [appendLiteral, ih, CharBuffer.put, List.length_cons, Nat.add_right_comm, Nat.add_assoc]

/-- The first loop leaves the digits in {lit}`tmp`, the last one first. -/
theorem digitLoop_eq {room value : Nat} (tmp : CharBuffer 10) (len : Nat)
    (h : value < 10 ^ room) :
    digitLoop room tmp len value =
      (tmp.put len ((Nat.digits 10 value).map fun d => UInt8.ofNat (48 + d)),
        len + (Nat.digits 10 value).length) := by
  induction room generalizing tmp len value with
  | zero =>
      obtain rfl : value = 0 := by simpa using h
      rfl
  | succ room ih =>
      rw [digitLoop]
      split
      · rename_i hpos
        have hnext : value / 10 < 10 ^ room := by
          rw [Nat.div_lt_iff_lt_mul (by norm_num), ← Nat.pow_succ]
          exact h
        rw [ih _ _ hnext, Nat.digits_def' (by norm_num) hpos, List.map_cons, CharBuffer.put,
          List.length_cons, Nat.add_right_comm, Nat.add_assoc]
      · rename_i hzero
        obtain rfl : value = 0 := by omega
        simp [CharBuffer.put]

/-- The second loop copies the elements below {lit}`len` in reverse. -/
theorem reverseLoop_eq (tmp : CharBuffer 10) (len : Nat) (buf : CharBuffer n) (pos : Nat) :
    reverseLoop tmp len buf pos =
      (buf.put pos ((List.range len).map tmp.bytes).reverse, pos + len) := by
  induction len generalizing buf pos with
  | zero => rfl
  | succ len ih =>
      rw [reverseLoop, ih, List.range_succ, List.map_append, List.reverse_append, List.map_singleton,
        List.reverse_singleton, List.singleton_append, CharBuffer.put, Nat.add_right_comm,
        Nat.add_assoc]

/-- {lit}`append_u32` writes the numeral of its argument. -/
theorem appendU32_eq (buf : CharBuffer n) (pos : Nat) {value : Nat} (h : value < 2 ^ 32) :
    appendU32 buf pos value = (buf.put pos (decimal value), pos + (decimal value).length) := by
  unfold appendU32 decimal
  split
  · rfl
  · have hdigits := digitLoop_eq (.fresh fun _ => 0) 0 (show value < 10 ^ 10 by omega)
    rw [Nat.zero_add] at hdigits
    simp only [hdigits, reverseLoop_eq]
    have htmp : (List.range (Nat.digits 10 value).length).map
        ((CharBuffer.fresh fun _ => 0 : CharBuffer 10).put 0
          ((Nat.digits 10 value).map fun d => UInt8.ofNat (48 + d))).bytes =
        (Nat.digits 10 value).map fun d => UInt8.ofNat (48 + d) := by
      refine List.ext_getElem (by simp) fun j hj hj' => ?_
      have hbyte := (CharBuffer.fresh fun _ => 0 : CharBuffer 10).put_bytes 0 _ j hj'
      rw [Nat.zero_add] at hbyte
      rw [List.getElem_map, List.getElem_range, hbyte]
    rw [htmp, List.length_reverse, List.length_map]

end Arrays

/-- The fields of a line, with commas between them. -/
def statFields (pid ticks eventId contextId : Nat) : List UInt8 :=
  [44].intercalate [decimal pid, decimal ticks, decimal eventId, decimal contextId]

section Lines

variable {pid ticks eventId contextId : Nat}

/-- The array of a line. -/
theorem statBuffer_eq (junk : Nat → UInt8) (hpid : pid < 2 ^ 32) (hticks : ticks < 2 ^ 32)
    (hevent : eventId < 2 ^ 32) (hcontext : contextId < 2 ^ 32) :
    statBuffer junk pid ticks eventId contextId =
      CharBuffer.put (.fresh junk) 0
        (statTag ++ statFields pid ticks eventId contextId ++ [0]) := by
  simp only [statBuffer, appendLiteral_eq, appendU32_eq _ _ hpid, appendU32_eq _ _ hticks,
    appendU32_eq _ _ hevent, appendU32_eq _ _ hcontext, appendChar, statFields,
    List.intercalate_cons_cons, List.intercalate_singleton, CharBuffer.put_append,
    CharBuffer.put_singleton, List.length_append, List.length_singleton, Nat.add_assoc]

/-- The fields have digits and commas only. -/
theorem mem_statFields {c : UInt8} (h : c ∈ statFields pid ticks eventId contextId) :
    44 ≤ c ∧ c ≤ 57 := by
  have hcomma : (44 : UInt8) ≤ 44 ∧ (44 : UInt8) ≤ 57 := by decide
  have hdigit : ∀ {value}, c ∈ decimal value → 44 ≤ c ∧ c ≤ 57 := by
    intro value hc
    obtain ⟨hlo, hhi⟩ := decimal_digits hc
    exact ⟨UInt8.le_trans (show (44 : UInt8) ≤ 48 by decide) hlo, hhi⟩
  simp only [statFields, List.intercalate_cons_cons, List.intercalate_singleton, List.mem_append,
    List.mem_singleton] at h
  rcases h with ((hc | rfl) | (hc | rfl) | (hc | rfl) | hc)
  all_goals first | exact hdigit hc | exact hcomma

theorem statFields_length (hpid : pid < 2 ^ 32) (hticks : ticks < 2 ^ 32)
    (hevent : eventId < 2 ^ 32) (hcontext : contextId < 2 ^ 32) :
    (statFields pid ticks eventId contextId).length ≤ 43 := by
  have h₁ := decimal_length hpid
  have h₂ := decimal_length hticks
  have h₃ := decimal_length hevent
  have h₄ := decimal_length hcontext
  simp only [statFields, List.intercalate_cons_cons, List.intercalate_singleton, List.length_append,
    List.length_singleton]
  omega

theorem statFields_ne_nil (pid ticks eventId contextId : Nat) :
    statFields pid ticks eventId contextId ≠ [] := by
  simp [statFields, List.intercalate_cons_cons]

/-- What the serial line gets. -/
theorem serialWrite_statBuffer (junk : Nat → UInt8) (hpid : pid < 2 ^ 32) (hticks : ticks < 2 ^ 32)
    (hevent : eventId < 2 ^ 32) (hcontext : contextId < 2 ^ 32) :
    serialWrite (statBuffer junk pid ticks eventId contextId) =
      statTag ++ statFields pid ticks eventId contextId ++ [10] := by
  have hlength := statFields_length hpid hticks hevent hcontext
  have hname : statTag.length = 7 := rfl
  rw [serialWrite, statBuffer_eq junk hpid hticks hevent hcontext, CharBuffer.string_put]
  · intro hz
    rcases List.mem_append.1 hz with hz | hz
    · exact absurd hz (by decide)
    · exact absurd (mem_statFields hz).1 (by decide)
  · rw [List.length_append]
    omega

/-- Stripping a line removes its newline. -/
theorem pyStrip_line (pid ticks eventId contextId : Nat) :
    pyStrip (statTag ++ statFields pid ticks eventId contextId ++ [10]) =
      statTag ++ statFields pid ticks eventId contextId := by
  have hfront : (statTag ++ statFields pid ticks eventId contextId ++ [10]).dropWhile
      pyWhitespace = statTag ++ statFields pid ticks eventId contextId ++ [10] := rfl
  rw [pyStrip, hfront, List.rdropWhile_concat_pos _ _ _ (by decide), List.rdropWhile_eq_self_iff]
  intro hne
  have hfields := statFields_ne_nil pid ticks eventId contextId
  rw [List.getLast_append_of_ne_nil _ hfields]
  have hlast := mem_statFields (List.getLast_mem hfields)
  simp only [pyWhitespace, Bool.or_eq_true, Bool.and_eq_true, decide_eq_true_eq, not_or, not_and,
    UInt8.not_le]
  exact ⟨fun _ => UInt8.lt_of_lt_of_le (show (13 : UInt8) < 44 by decide) hlast.1,
    fun _ => UInt8.lt_of_lt_of_le (show (32 : UInt8) < 44 by decide) hlast.1⟩

/-- The notebook finds the four numerals in a line. -/
theorem parseStat_line (pid ticks eventId contextId : Nat) :
    parseStat (statTag ++ statFields pid ticks eventId contextId ++ [10]) =
      some [decimal pid, decimal ticks, decimal eventId, decimal contextId] := by
  have hspace : (32 : UInt8) ∉ statFields pid ticks eventId contextId := fun h =>
    absurd (mem_statFields h).1 (by decide)
  have hcomma : ∀ text ∈ [decimal pid, decimal ticks, decimal eventId, decimal contextId],
      (44 : UInt8) ∉ text := by
    intro text htext hc
    simp only [List.mem_cons, List.not_mem_nil, or_false] at htext
    rcases htext with rfl | rfl | rfl | rfl
    all_goals exact absurd (decimal_digits hc).1 (by decide)
  have hword : statTag ++ statFields pid ticks eventId contextId =
      [91, 83, 84, 65, 84, 93] ++ 32 :: statFields pid ticks eventId contextId := rfl
  have hstart : ([91, 83, 84, 65, 84, 93] : List UInt8).isPrefixOf
      (statTag ++ statFields pid ticks eventId contextId ++ [10]) = true := rfl
  rw [parseStat, if_pos hstart, pyStrip_line, hword, List.splitOn_append_cons_self_of_not_mem (by decide),
    List.splitOn_eq_singleton hspace]
  simp only [List.getElem?_cons_succ, List.getElem?_cons_zero, Option.map_some, Option.some.injEq]
  rw [statFields, List.splitOn_intercalate _ hcomma (List.cons_ne_nil _ _)]

/-- A line of the log fits its array, with the terminator, and the notebook reads back the four
values that were logged. -/
theorem stat_line_round_trip (junk : Nat → UInt8) (hpid : pid < 2 ^ 32) (hticks : ticks < 2 ^ 32)
    (hevent : eventId < 2 ^ 32) (hcontext : contextId < 2 ^ 32) :
    (statBuffer junk pid ticks eventId contextId).overrun = false ∧
      ∃ fields, parseStat (serialWrite (statBuffer junk pid ticks eventId contextId)) =
          some fields ∧
        fields.map decimalValue = [some pid, some ticks, some eventId, some contextId] := by
  constructor
  · have hlength := statFields_length hpid hticks hevent hcontext
    have hname : statTag.length = 7 := rfl
    rw [statBuffer_eq junk hpid hticks hevent hcontext, CharBuffer.put_overrun]
    · rfl
    · rw [List.length_append, List.length_append, List.length_singleton]
      omega
  · rw [serialWrite_statBuffer junk hpid hticks hevent hcontext]
    refine ⟨_, parseStat_line pid ticks eventId contextId, ?_⟩
    simp only [List.map_cons, List.map_nil, decimalValue_decimal]

/-- The largest values. -/
theorem stat_line_round_trip_largest :
    (statBuffer (fun _ => 0) (2 ^ 32 - 1) (2 ^ 32 - 1) 4 5).overrun = false ∧
      ∃ fields, parseStat (serialWrite (statBuffer (fun _ => 0) (2 ^ 32 - 1) (2 ^ 32 - 1) 4 5)) =
          some fields ∧
        fields.map decimalValue = [some (2 ^ 32 - 1), some (2 ^ 32 - 1), some 4, some 5] :=
  stat_line_round_trip (fun _ => 0) (by norm_num) (by norm_num) (by norm_num) (by norm_num)

end Lines

end SoKernel
