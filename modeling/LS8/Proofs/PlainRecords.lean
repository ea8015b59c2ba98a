import LS8.CommandLine.Report
import LS8.Proofs.Running
import LS8.Proofs.WrittenNumerals

/-! Output and records as text. What a machine prints is ASCII, so it is shown byte for byte; and the record
of a text without control characters is that text on a line of its own. -/

namespace LS8

theorem utf8EncodeChar_ofUInt8 {byte : UInt8} (ascii : byte < 0x80) :
    String.utf8EncodeChar (Char.ofUInt8 byte) = [byte] := by
  have value : (Char.ofUInt8 byte).val.toNat = byte.toNat := UInt8.toNat_toUInt32 byte
  have small : (Char.ofUInt8 byte).utf8Size = 1 := by
    rw [Char.utf8Size_eq_one_iff, UInt32.le_iff_toNat_le, value]
    exact Nat.le_of_lt_succ (UInt8.lt_iff_toNat_lt.mp ascii)
  have same : (Char.ofUInt8 byte).val.toUInt8 = byte := by
    refine UInt8.toNat_inj.mp ?_
    rw [UInt32.toNat_toUInt8, value]
    exact Nat.mod_eq_of_lt byte.toNat_lt
  rw [String.utf8EncodeChar_eq_singleton small, same]

/-- ASCII is shown byte for byte. -/
theorem Sink.toUTF8_text {s : Sink} (ascii : ∀ byte ∈ s.accepted.toList, byte < 0x80) :
    s.text.toUTF8 = ⟨s.accepted⟩ := by
  have encoded (bytes : List UInt8) (ascii : ∀ byte ∈ bytes, byte < 0x80) :
      bytes.flatMap (fun byte => String.utf8EncodeChar (Char.ofUInt8 byte)) = bytes := by
    induction bytes with
    | nil => rfl
    | cons byte bytes ih =>
      obtain ⟨first, rest⟩ := List.forall_mem_cons.mp ascii
      rw [List.flatMap_cons, utf8EncodeChar_ofUInt8 first, ih rest]
      rfl
  refine ByteArray.ext ?_
  show (String.ofList _).toByteArray.data = _
  rw [String.toByteArray_ofList, List.utf8Encode, List.flatMap_map, encoded _ ascii,
    List.data_toByteArray]

theorem outputLine_ascii (value : UInt8) : ∀ byte ∈ outputLine value, byte < 0x80 := by
  intro byte mem
  rcases List.mem_append.mp mem with digits | feed
  · exact UInt8.lt_of_le_of_lt (bounds_of_mem_decimal digits).2 (by decide)
  · rw [List.mem_singleton.mp feed]
    decide

theorem History.output_ascii (h : History) : ∀ byte ∈ h.output, byte < 0x80 := by
  intro byte mem
  obtain ⟨⟨_, effect⟩, -, shown⟩ := List.mem_flatMap.mp mem
  cases effect with
  | printed value => exact outputLine_ascii value byte shown
  | skipped | halted | computed => cases shown

/-- Every character has its place on one line. -/
def Printable (text : String) : Prop := ∀ c ∈ text.toList, ' ' ≤ c ∧ c ≠ '\x7f'

instance (text : String) : Decidable (Printable text) :=
  List.decidableBAll _ text.toList

theorem Printable.append {front rest : String} (hf : Printable front) (hr : Printable rest) :
    Printable (front ++ rest) := by
  intro c hc
  rw [String.toList_append] at hc
  exact (List.mem_append.mp hc).elim (hf c) (hr c)

theorem printable_of_mem_toDigits {base n : Nat} {c : Char} (le : 2 ≤ base) (small : base ≤ 16)
    (h : c ∈ Nat.toDigits base n) : ' ' ≤ c ∧ c ≠ '\x7f' := by
  obtain ⟨digit, hd, rfl⟩ := exists_digitChar_of_mem_toDigits le h
  have each : ∀ digit < 16, ' ' ≤ Nat.digitChar digit ∧ Nat.digitChar digit ≠ '\x7f' := by decide
  exact each digit (by omega)

theorem printable_decimal (n : Nat) : Printable (decimal n) := by
  intro c hc
  rw [decimal, String.toList_ofList] at hc
  exact printable_of_mem_toDigits (by decide) (by decide) hc

theorem printable_lowerHex (width n : Nat) : Printable (lowerHex width n) := by
  intro c hc
  rw [lowerHex, String.toList_ofList, List.leftpad] at hc
  rcases List.mem_append.mp hc with padding | digits
  · rw [List.eq_of_mem_replicate padding]
    decide
  · exact printable_of_mem_toDigits (by decide) (by decide) digits

theorem Printable.isVisible {text : String} (h : Printable text) :
    ∀ c ∈ text.toList, isVisible c = true := by
  intro c hc
  obtain ⟨space, delete⟩ := h c hc
  simp [LS8.isVisible, space, delete]

theorem Event.target_eq (event : Event) :
    event.target = "ls8::loader" ∨ event.target = "ls8::computer" := by
  cases event with
  | parsed => exact .inl rfl
  | loaded | cycle | skipped | halted => exact .inr rfl

/-- The record of a text without layout is one line, just as it was written. -/
theorem Event.record_of_printable {event : Event} (h : Printable event.text) :
    event.record = "[" ++ String.ofList (event.level.name.toList.rightpad 5 ' ') ++ " " ++
      event.target ++ "] " ++ event.text ++ "\n" := by
  have unfolded : event.text.toList.flatMap (fun c => if c = '\n' then "\n    ".toList else [c]) =
      event.text.toList := by
    -- a text on one line has no line feed, so nothing is indented
    calc _ = event.text.toList.flatMap fun c => [c] := by
          rw [List.flatMap_def, List.flatMap_def]
          refine congrArg List.flatten (List.map_congr_left fun c hc => if_neg ?_)
          rintro rfl
          exact absurd (h _ hc).1 (by decide)
      _ = _ := List.flatMap_singleton' _
  have level : Printable (String.ofList (event.level.name.toList.rightpad 5 ' ')) := by
    cases event.level <;> decide
  have target : Printable event.target := by
    rcases event.target_eq with h | h <;> rw [h] <;> decide
  have opening : Printable "[" := by decide
  have blank : Printable " " := by decide
  have closing : Printable "] " := by decide
  have line := ((((opening.append level).append blank).append target).append closing).append h
  rw [record, unfolded, String.ofList_toList]
  refine plainText_eq_self fun c hc => ?_
  rcases List.mem_append.mp (String.toList_append ▸ hc) with hc | hc
  · exact line.isVisible c hc
  · rw [List.mem_singleton.mp hc]
    decide

/-- The line that warns of a byte that is no opcode. -/
def warningLine (skipped : Nat × UInt8) : String :=
  let (address, byte) := skipped
  s!"[WARN  ls8::computer] unknown opcode {decimal byte.toNat} (0x{lowerHex 2 byte.toNat}) at address 0x{lowerHex 2 address}\n"

theorem Event.record_skipped (address : Nat) (byte : UInt8) :
    (Event.skipped address byte).record = warningLine (address, byte) := by
  have text : (Event.skipped address byte).text = "unknown opcode " ++ decimal byte.toNat ++
      " (0x" ++ lowerHex 2 byte.toNat ++ ") at address 0x" ++ lowerHex 2 address := rfl
  have printable : Printable (Event.skipped address byte).text := by
    have opening : Printable "unknown opcode " := by decide
    have middle : Printable " (0x" := by decide
    have closing : Printable ") at address 0x" := by decide
    rw [text]
    exact ((((opening.append (printable_decimal _)).append middle).append
      (printable_lowerHex _ _)).append closing).append (printable_lowerHex _ _)
  have line : warningLine (address, byte) = "[WARN  ls8::computer] unknown opcode " ++
      decimal byte.toNat ++ " (0x" ++ lowerHex 2 byte.toNat ++ ") at address 0x" ++
      lowerHex 2 address ++ "\n" := rfl
  have front : "[WARN  ls8::computer] unknown opcode " =
      "[" ++ String.ofList ((Event.skipped address byte).level.name.toList.rightpad 5 ' ') ++ " " ++
        (Event.skipped address byte).target ++ "] " ++ "unknown opcode " :=
    (by decide : _ = "[" ++ String.ofList (Level.warn.name.toList.rightpad 5 ' ') ++ " " ++
      "ls8::computer" ++ "] " ++ "unknown opcode ")
  rw [record_of_printable printable, text, line, front]
  simp only [String.append_assoc]

end LS8
