import LS8.Proofs.ImageGrammar

/-! Literals of any length. A literal is read digit by digit, and reading fails as soon as the value is
too large for a byte. That is neither too early nor too late: a literal stands for a byte just if at
most eight of its digits stand behind the leading zeros, however many of these there are. -/

namespace LS8

/-- A row of binary digits, at most eight of them behind the leading zeros. -/
structure FitsByte (text : List Char) : Prop where
  nonempty : text ≠ []
  binary : ∀ c ∈ text, c = '0' ∨ c = '1'
  short : (text.dropWhile (· = '0')).length ≤ 8

section Text

variable {text : List Char}

/-- For binary digits, to fit is to have a value below two to the eighth power. -/
theorem short_iff_value_lt (binary : ∀ c ∈ text, c = '0' ∨ c = '1') :
    (text.dropWhile (· = '0')).length ≤ 8 ↔ numeralValue 2 text < 2 ^ 8 :=
  (numeralValue_lt_pow_iff Nat.one_lt_two (forall_isDigit_two_iff.mpr binary)).symm

theorem FitsByte.exists_value (h : FitsByte text) :
    ∃ value : UInt8, value.toNat = numeralValue 2 text :=
  ⟨.ofNat _, UInt8.toNat_ofNat_of_lt' ((short_iff_value_lt h.binary).mp h.short)⟩

theorem binaryByte_iff_fitsByte {value : UInt8} :
    BinaryByte text value ↔ FitsByte text ∧ value.toNat = numeralValue 2 text := by
  constructor
  · rintro ⟨nonempty, binary, he⟩
    have small : numeralValue 2 text < 2 ^ 8 := he ▸ value.toNat_lt
    exact ⟨⟨nonempty, binary, (short_iff_value_lt binary).mpr small⟩, he.symm⟩
  · rintro ⟨fits, he⟩
    exact ⟨fits.nonempty, fits.binary, he.symm⟩

end Text

/-- A literal is read as its value in base two if it has one that fits in a byte. Else the literal is
reported, with its line. -/
theorem Literal.byte_exact (l : Literal) :
    (∀ value, l.byte = .ok value ↔ FitsByte l.text ∧ value.toNat = numeralValue 2 l.text) ∧
      ∀ fault, l.byte = .error fault ↔ ¬ FitsByte l.text ∧ fault = l := by
  have ok (value : UInt8) :
      l.byte = .ok value ↔ FitsByte l.text ∧ value.toNat = numeralValue 2 l.text :=
    byte_eq_ok_iff.trans binaryByte_iff_fitsByte
  refine ⟨ok, fun fault => ⟨fun error => ⟨fun fits => ?_, eq_of_byte_eq_error error⟩, ?_⟩⟩
  · obtain ⟨value, hv⟩ := fits.exists_value
    cases error.symm.trans ((ok value).mpr ⟨fits, hv⟩)
  · rintro ⟨unfit, rfl⟩
    cases hb : fault.byte with
    | ok value => exact (unfit ((ok value).mp hb).1).elim
    | error fault' => rw [eq_of_byte_eq_error hb]

example : Literal.byte ⟨2, "000000000000011111111".toList⟩ = .ok 255 := by decide

example : Literal.byte ⟨2, "0100000000".toList⟩ = .error ⟨2, "0100000000".toList⟩ := by decide

end LS8
