import LS8.Proofs.Numerals
import Mathlib.Data.List.Induction
import Mathlib.Data.Nat.Digits.Defs

/-! The numerals that are written. Reading one back gives the number that was written, in base ten and,
with any number of leading zeros, in base sixteen; and no more digits are written than the number needs. -/

namespace LS8

theorem exists_digitChar_of_mem_toDigits {base n : Nat} {c : Char} (le : 2 ≤ base)
    (h : c ∈ Nat.toDigits base n) : ∃ digit < base, c = Nat.digitChar digit := by
  induction n using Nat.strongRecOn with
  | ind n ih =>
    rw [Nat.toDigits_eq_if (by omega)] at h
    split at h
    · exact ⟨n, ‹_›, List.mem_singleton.mp h⟩
    · rcases List.mem_append.mp h with front | last
      · exact ih (n / base) (Nat.div_lt_self (by omega) (by omega)) front
      · exact ⟨n % base, Nat.mod_lt n (by omega), List.mem_singleton.mp last⟩

theorem isDigit_of_mem_toDigits {base n : Nat} {c : Char} (hb : 1 < base) (ten : base ≤ 10)
    (h : c ∈ Nat.toDigits base n) : IsDigit base c := by
  refine ⟨Nat.isDigit_of_mem_toDigits (by omega) ten h, ?_⟩
  obtain ⟨digit, lt, rfl⟩ := exists_digitChar_of_mem_toDigits hb h
  have value := Nat.toNat_digitChar_of_lt_ten (show digit < 10 by omega)
  have zero : '0'.toNat = 48 := rfl
  omega

theorem numeralValue_toDigits {base : Nat} (hb : 1 < base) (ten : base ≤ 10) (n : Nat) :
    numeralValue base (Nat.toDigits base n) = n := by
  have h := ofDigitChars_eq_numeralValue base 0 (Nat.toDigits base n)
  rw [Nat.ofDigitChars_toDigits hb ten] at h
  simpa using h.symm

/-- A zero in front is written only for zero itself. -/
theorem toDigits_eq_of_head_zero {base n : Nat} (hb : 1 < base) (ten : base ≤ 10)
    (zero : (Nat.toDigits base n).head? = some '0') : Nat.toDigits base n = ['0'] := by
  obtain ⟨rest, hd⟩ := List.head?_eq_some_iff.mp zero
  cases hr : rest with
  | nil => rw [hd, hr]
  | cons c rest' =>
    -- with a zero in front one digit less would do
    have digits : ∀ d ∈ rest, IsDigit base d := fun d hd' =>
      isDigit_of_mem_toDigits hb ten (hd ▸ List.mem_cons_of_mem _ hd')
    have value : numeralValue base rest = n := by
      have h := numeralValue_toDigits hb ten n
      rw [hd] at h
      simpa [numeralValue] using h
    have small : n < base ^ rest.length := value ▸ numeralValue_lt_pow digits
    have pos : 0 < rest.length := by simp [hr]
    have le := (Nat.length_toDigits_le_iff hb pos).mpr small
    rw [hd, List.length_cons] at le
    omega

theorem digitChar_of_isDigit {base : Nat} {c : Char} (ten : base ≤ 10) (digit : IsDigit base c) :
    Nat.digitChar (c.toNat - '0'.toNat) = c := by
  have lt : c.toNat - '0'.toNat < 10 := Nat.lt_of_lt_of_le digit.2 ten
  have ge := (Char.isDigit_iff_toNat.mp digit.1).1
  have value := Nat.toNat_digitChar_of_lt_ten lt
  have zero : '0'.toNat = 48 := rfl
  exact Char.toNat_inj.mp (by omega)

/-- A row of digits is what is written for its value, unless it begins with a zero too many. -/
theorem toDigits_numeralValue {base : Nat} {text : List Char} (hb : 1 < base) (ten : base ≤ 10)
    (nonempty : text ≠ []) (digits : ∀ c ∈ text, IsDigit base c)
    (noLeadingZero : text.head? = some '0' → text = ['0']) :
    Nat.toDigits base (numeralValue base text) = text := by
  induction text using List.reverseRecOn with
  | nil => exact (nonempty rfl).elim
  | append_singleton front c ih =>
    have digit : IsDigit base c := digits c (List.mem_append_right _ List.mem_cons_self)
    rw [numeralValue_concat]
    cases front with
    | nil =>
      rw [numeralValue, Nat.mul_zero, Nat.zero_add, Nat.toDigits_of_lt_base digit.2,
        digitChar_of_isDigit ten digit, List.nil_append]
    | cons d rest =>
      have frontDigits : ∀ e ∈ d :: rest, IsDigit base e := fun e he =>
        digits e (List.mem_append_left _ he)
      have notZero : d ≠ '0' := by
        rintro rfl
        have short := congrArg List.length (noLeadingZero rfl)
        simp at short
      have written := ih (List.cons_ne_nil d rest) frontDigits fun zero =>
        (notZero (Option.some.inj zero)).elim
      -- a row that begins with another digit than zero has a value above zero
      have pos : 1 ≤ numeralValue base (d :: rest) :=
        Nat.le_trans (Nat.pow_pos (Nat.zero_lt_of_lt hb))
          (pow_le_numeralValue (frontDigits d List.mem_cons_self) notZero rest)
      generalize numeralValue base (d :: rest) = value at written pos
      have le : base ≤ base * value + (c.toNat - '0'.toNat) :=
        Nat.le_trans (Nat.le_mul_of_pos_right base pos) (Nat.le_add_right _ _)
      rw [Nat.toDigits_of_base_le hb le, Nat.mul_add_div (Nat.zero_lt_of_lt hb), Nat.div_eq_of_lt digit.2,
        Nat.add_zero, written, Nat.mul_add_mod, Nat.mod_eq_of_lt digit.2, digitChar_of_isDigit ten digit]

theorem toNat_toUInt8_of_isDigit {c : Char} (digit : c.isDigit) : c.toUInt8.toNat = c.toNat := by
  have le := (Char.isDigit_iff_toNat.mp digit).2
  have nine : '9'.toNat = 57 := rfl
  have value : c.toUInt8.toNat = c.toNat % 256 := UInt32.toNat_toUInt8 _
  omega

theorem bounds_of_mem_decimal {n : Nat} {byte : UInt8}
    (h : byte ∈ (Nat.toDigits 10 n).map Char.toUInt8) : 0x30 ≤ byte ∧ byte ≤ 0x39 := by
  obtain ⟨c, hc, rfl⟩ := List.mem_map.mp h
  have digit : c.isDigit := Nat.isDigit_of_mem_toDigits (by decide) (by decide) hc
  rw [UInt8.le_iff_toNat_le, UInt8.le_iff_toNat_le, toNat_toUInt8_of_isDigit digit]
  exact Char.isDigit_iff_toNat.mp digit

def hexDigitValue (c : Char) : Nat :=
  if c.isDigit then c.toNat - '0'.toNat else c.toNat - 'A'.toNat + 10

def hexValue (text : List Char) : Nat :=
  text.foldl (fun value c => 16 * value + hexDigitValue c) 0

theorem hexValue_concat (text : List Char) (c : Char) :
    hexValue (text ++ [c]) = 16 * hexValue text + hexDigitValue c :=
  List.foldl_append

theorem hexDigitValue_digitChar {digit : Nat} (h : digit < 16) :
    hexDigitValue (Nat.digitChar digit).toUpper = digit := by
  have each : ∀ digit < 16, hexDigitValue (Nat.digitChar digit).toUpper = digit := by decide
  exact each digit h

theorem hexValue_toDigits (n : Nat) : hexValue ((Nat.toDigits 16 n).map Char.toUpper) = n := by
  induction n using Nat.strongRecOn with
  | ind n ih =>
    by_cases small : n < 16
    · rw [Nat.toDigits_of_lt_base small]
      simpa [hexValue] using hexDigitValue_digitChar small
    · have le : 16 ≤ n := Nat.le_of_not_lt small
      rw [Nat.toDigits_of_base_le (by decide) le, List.map_append, List.map_singleton, hexValue_concat,
        ih (n / 16) (by omega), hexDigitValue_digitChar (Nat.mod_lt n (by decide))]
      exact Nat.div_add_mod n 16

theorem hexValue_zeros (width : Nat) (text : List Char) :
    hexValue (List.replicate width '0' ++ text) = hexValue text := by
  induction width with
  | zero => rfl
  | succ width ih => exact ih

theorem toList_upperHex (width n : Nat) : (upperHex width n).toList =
    ((Nat.toDigits 16 n).map Char.toUpper).leftpad width '0' := String.toList_ofList

theorem hexValue_upperHex (width n : Nat) : hexValue (upperHex width n).toList = n := by
  rw [toList_upperHex, List.leftpad, hexValue_zeros, hexValue_toDigits]

theorem upperHex_inj {width m n : Nat} (h : upperHex width m = upperHex width n) : m = n := by
  rw [← hexValue_upperHex width m, h, hexValue_upperHex]

/-- However wide a number is written at least, it is not cut off. -/
theorem length_upperHex_le_iff {width digits : Nat} (pos : 0 < digits) (le : width ≤ digits) (n : Nat) :
    (upperHex width n).toList.length ≤ digits ↔ n < 16 ^ digits := by
  rw [toList_upperHex, List.length_leftpad, List.length_map, ← Nat.length_toDigits_le_iff (by decide) pos]
  omega

theorem exists_digitChar_of_mem_upperHex {width n : Nat} {c : Char} (h : c ∈ (upperHex width n).toList) :
    ∃ digit < 16, c = (Nat.digitChar digit).toUpper := by
  rw [toList_upperHex, List.leftpad] at h
  rcases List.mem_append.mp h with padding | digits
  · exact ⟨0, by decide, List.eq_of_mem_replicate padding⟩
  · obtain ⟨d, hd, rfl⟩ := List.mem_map.mp digits
    obtain ⟨digit, lt, rfl⟩ := exists_digitChar_of_mem_toDigits (by decide) hd
    exact ⟨digit, lt, rfl⟩

theorem not_mem_upperHex {width n : Nat} {c : Char}
    (other : ∀ digit < 16, c ≠ (Nat.digitChar digit).toUpper) : c ∉ (upperHex width n).toList := by
  intro h
  obtain ⟨digit, lt, hc⟩ := exists_digitChar_of_mem_upperHex h
  exact other digit lt hc

end LS8
