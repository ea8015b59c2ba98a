import LS8.Machine.Step
import LS8.Proofs.WrittenNumerals

/-! The line that a value is printed as. It is described by what can be read in it, a numeral in base ten
with neither a sign nor a zero too many and then a line feed, and there is one such line for each value. -/

namespace LS8

def decimalBytes (value : UInt8) : List UInt8 := (Nat.toDigits 10 value.toNat).map Char.toUInt8

/-- The bytes are the decimal numeral of the value, with neither a sign nor a zero too many. -/
structure Decimal (bytes : List UInt8) (value : UInt8) : Prop where
  nonempty : bytes ≠ []
  digits : ∀ byte ∈ bytes, 0x30 ≤ byte ∧ byte ≤ 0x39
  noLeadingZero : bytes.head? = some 0x30 → bytes = [0x30]
  value_eq : numeralValue 10 (bytes.map Char.ofUInt8) = value.toNat

/-- The bytes are the line that shows the value. -/
def DecimalLine (line : List UInt8) (value : UInt8) : Prop :=
  ∃ numeral, Decimal numeral value ∧ line = numeral ++ [0x0A]

theorem ofUInt8_toUInt8_of_isDigit {c : Char} (digit : c.isDigit) :
    Char.ofUInt8 c.toUInt8 = c := by
  have value : (Char.ofUInt8 c.toUInt8).toNat = c.toUInt8.toNat := UInt8.toNat_toUInt32 _
  exact Char.toNat_inj.mp (value.trans (toNat_toUInt8_of_isDigit digit))

theorem toUInt8_ofUInt8 (byte : UInt8) : (Char.ofUInt8 byte).toUInt8 = byte :=
  UInt8.toUInt8_toUInt32 byte

theorem isDigit_ofUInt8 {byte : UInt8} (h : 0x30 ≤ byte ∧ byte ≤ 0x39) :
    IsDigit 10 (Char.ofUInt8 byte) := by
  have value : (Char.ofUInt8 byte).toNat = byte.toNat := UInt8.toNat_toUInt32 _
  have zero : '0'.toNat = 48 := rfl
  obtain ⟨ge, le⟩ := h
  rw [UInt8.le_iff_toNat_le] at ge le
  have ge : 48 ≤ byte.toNat := ge
  have le : byte.toNat ≤ 57 := le
  refine ⟨Char.isDigit_iff_toNat.mpr ⟨?_, ?_⟩, ?_⟩
  · rw [value]
    exact ge
  · rw [value]
    exact le
  · omega

theorem map_ofUInt8_decimalBytes (value : UInt8) :
    (decimalBytes value).map Char.ofUInt8 = Nat.toDigits 10 value.toNat := by
  rw [decimalBytes, List.map_map]
  have same : ∀ c ∈ Nat.toDigits 10 value.toNat, (Char.ofUInt8 ∘ Char.toUInt8) c = c := fun c hc =>
    ofUInt8_toUInt8_of_isDigit (Nat.isDigit_of_mem_toDigits (by decide) (by decide) hc)
  exact (List.map_congr_left same).trans (List.map_id' _)

theorem decimal_decimalBytes (value : UInt8) : Decimal (decimalBytes value) value where
  nonempty := by simp [decimalBytes]
  digits _ := bounds_of_mem_decimal
  noLeadingZero h := by
    have zero : (Nat.toDigits 10 value.toNat).head? = some '0' := by
      rw [← map_ofUInt8_decimalBytes, List.head?_map, h]
      rfl
    rw [decimalBytes, toDigits_eq_of_head_zero (by decide) (by decide) zero]
    rfl
  value_eq := by
    rw [map_ofUInt8_decimalBytes]
    exact numeralValue_toDigits (by decide) (by decide) _

theorem Decimal.eq_decimalBytes {bytes : List UInt8} {value : UInt8} (h : Decimal bytes value) :
    bytes = decimalBytes value := by
  have digits : ∀ c ∈ bytes.map Char.ofUInt8, IsDigit 10 c := by
    intro c hc
    obtain ⟨byte, hb, rfl⟩ := List.mem_map.mp hc
    exact isDigit_ofUInt8 (h.digits byte hb)
  have noLeadingZero : (bytes.map Char.ofUInt8).head? = some '0' → bytes.map Char.ofUInt8 = ['0'] := by
    intro zero
    rw [List.head?_map, Option.map_eq_some_iff] at zero
    obtain ⟨byte, first, zero⟩ := zero
    have byte_eq : byte = 0x30 := by rw [← toUInt8_ofUInt8 byte, zero]; rfl
    rw [h.noLeadingZero (byte_eq ▸ first)]
    rfl
  have written := toDigits_numeralValue (by decide) (by decide) (by simpa using h.nonempty) digits
    noLeadingZero
  rw [h.value_eq] at written
  rw [decimalBytes, written, List.map_map]
  exact (List.map_id'' toUInt8_ofUInt8 bytes).symm

theorem decimalLine_iff {line : List UInt8} {value : UInt8} :
    DecimalLine line value ↔ line = outputLine value := by
  constructor
  · rintro ⟨numeral, decimal, rfl⟩
    rw [decimal.eq_decimalBytes]
    rfl
  · rintro rfl
    exact ⟨decimalBytes value, decimal_decimalBytes value, rfl⟩

end LS8
