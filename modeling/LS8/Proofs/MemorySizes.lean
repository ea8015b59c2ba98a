import LS8.CommandLine.MemorySize
import LS8.Memory
import LS8.Proofs.Numerals

/-! Memory sizes as they are asked for. A text is accepted just if it says, in decimal digits and perhaps
behind a plus sign, a size that a memory may have and a 64-bit word can hold. Any other text is refused
for the first character that is at fault, or else because the size is too small. -/

namespace LS8

/-- What a text says that consists of decimal digits, perhaps behind a plus sign. -/
inductive SizeNumeral : List Char → Nat → Prop
  | plain {digits : List Char} (nonempty : digits ≠ []) (decimal : ∀ c ∈ digits, c.isDigit) :
      SizeNumeral digits (numeralValue 10 digits)
  | signed {digits : List Char} (nonempty : digits ≠ []) (decimal : ∀ c ∈ digits, c.isDigit) :
      SizeNumeral ('+' :: digits) (numeralValue 10 digits)

def behindPlus : List Char → List Char
  | '+' :: rest => rest
  | text => text

/-- Why a text asks for no memory size. A plus sign alone is a bad digit itself. -/
inductive SizeFault.Raised (text : List Char) : SizeFault → Prop
  | empty (h : text = []) : Raised text (.notANumeral .empty)
  | loneSign (h : text = ['+']) : Raised text (.notANumeral .invalidDigit)
  | invalidDigit {front : List Char} {c : Char}
      (first : FirstAtFault 10 (2 ^ 64 - 1) (behindPlus text) front c) (h : ¬ c.isDigit) :
      Raised text (.notANumeral .invalidDigit)
  | tooLarge {front : List Char} {c : Char}
      (first : FirstAtFault 10 (2 ^ 64 - 1) (behindPlus text) front c) (h : c.isDigit) :
      Raised text (.notANumeral .tooLarge)
  | belowMinimum {n : Nat} (numeral : SizeNumeral text n) (h : n < 256) : Raised text .belowMinimum

section Text

variable {text : List Char}

theorem withoutPlus_eq_behindPlus (signed : text ≠ ['+']) : withoutPlus text = behindPlus text := by
  rw [withoutPlus.eq_def]
  split
  · rfl
  · rename_i short
    rw [behindPlus.eq_def]
    split
    · rename_i rest
      cases rest with
      | nil => exact (signed rfl).elim
      | cons c rest => exact (short c rest rfl).elim
    · rfl

theorem withoutPlus_of_digits (decimal : ∀ c ∈ text, c.isDigit) : withoutPlus text = text := by
  rw [withoutPlus.eq_def]
  split
  · cases decimal '+' List.mem_cons_self
  · rfl

/-- The digits of a size are those that stand behind its sign. -/
theorem sizeNumeral_iff {n : Nat} :
    SizeNumeral text n ↔ withoutPlus text ≠ [] ∧ (∀ c ∈ withoutPlus text, IsDigit 10 c) ∧
      n = numeralValue 10 (withoutPlus text) := by
  rw [forall_isDigit_ten_iff]
  constructor
  · intro numeral
    cases numeral with
    | plain nonempty decimal =>
      rw [withoutPlus_of_digits decimal]
      exact ⟨nonempty, decimal, rfl⟩
    | @signed digits nonempty decimal =>
      obtain ⟨c, rest, rfl⟩ := List.exists_cons_of_ne_nil nonempty
      exact ⟨nonempty, decimal, rfl⟩
  · rintro ⟨nonempty, decimal, rfl⟩
    revert nonempty decimal
    rw [withoutPlus.eq_def]
    split
    · exact .signed
    · exact .plain

theorem withoutPlus_eq_nil_iff : withoutPlus text = [] ↔ text = [] := by
  rw [withoutPlus.eq_def]
  split
  · simp
  · rfl

/-- A plus sign alone is taken for the digits, and so it is the first character at fault. -/
theorem raised_loneSign : NumeralFault.Raised 10 sizeLimit ['+'] .invalidDigit := by
  have first : FirstAtFault 10 sizeLimit ['+'] [] '+' := ⟨List.prefix_rfl, .inl nofun, by simp⟩
  exact .invalidDigit first nofun

theorem FirstAtFault.withoutPlus_eq {base limit : Nat} {front : List Char} {c : Char}
    (h : FirstAtFault base limit (behindPlus text) front c) :
    withoutPlus text = behindPlus text := by
  refine withoutPlus_eq_behindPlus ?_
  rintro rfl
  simpa [behindPlus] using h.isFront

theorem SizeFault.raised_notANumeral_iff {reason : NumeralFault} :
    SizeFault.Raised text (.notANumeral reason) ↔
      reason.Raised 10 sizeLimit (withoutPlus text) := by
  constructor
  · intro h
    cases h with
    | empty empty => exact .empty (withoutPlus_eq_nil_iff.mpr empty)
    | loneSign lone =>
      subst lone
      exact raised_loneSign
    | invalidDigit first noDigit =>
      rw [first.withoutPlus_eq]
      exact .invalidDigit first (mt isDigit_ten_iff.mp noDigit)
    | tooLarge first digit =>
      rw [first.withoutPlus_eq]
      exact .tooLarge first (isDigit_ten_iff.mpr digit)
  · intro h
    by_cases lone : text = ['+']
    · subst lone
      rw [h.unique raised_loneSign]
      exact .loneSign rfl
    · have same := withoutPlus_eq_behindPlus lone
      cases h with
      | empty empty => exact .empty (withoutPlus_eq_nil_iff.mp empty)
      | invalidDigit first noDigit =>
        exact .invalidDigit (same ▸ first) (mt isDigit_ten_iff.mpr noDigit)
      | tooLarge first digit => exact .tooLarge (same ▸ first) (isDigit_ten_iff.mp digit)

theorem readNumeral_withoutPlus_eq_ok_iff {n : Nat} :
    readNumeral 10 sizeLimit (withoutPlus text) = .ok n ↔ SizeNumeral text n ∧ n ≤ sizeLimit := by
  rw [readNumeral_eq_ok_iff, sizeNumeral_iff, and_assoc, and_assoc]

end Text

section Parse

variable {text : String} {n : Nat}

theorem parseMemorySize_of_ok (h : readNumeral 10 sizeLimit (withoutPlus text.toList) = .ok n) :
    parseMemorySize text = if n < minimumMemorySize then .error .belowMinimum else .ok n := by
  simp only [parseMemorySize, h]

theorem parseMemorySize_of_error {reason : NumeralFault}
    (h : readNumeral 10 sizeLimit (withoutPlus text.toList) = .error reason) :
    parseMemorySize text = .error (.notANumeral reason) := by
  simp only [parseMemorySize, h]

theorem parseMemorySize_eq_ok_iff :
    parseMemorySize text = .ok n ↔
      SizeNumeral text.toList n ∧ minimumMemorySize ≤ n ∧ n ≤ sizeLimit := by
  constructor
  · intro ok
    cases hr : readNumeral 10 sizeLimit (withoutPlus text.toList) with
    | error reason => cases ok.symm.trans (parseMemorySize_of_error hr)
    | ok m =>
      rw [parseMemorySize_of_ok hr] at ok
      split at ok
      · cases ok
      · cases ok
        obtain ⟨numeral, le⟩ := readNumeral_withoutPlus_eq_ok_iff.mp hr
        exact ⟨numeral, by omega, le⟩
  · rintro ⟨numeral, enough, le⟩
    rw [parseMemorySize_of_ok (readNumeral_withoutPlus_eq_ok_iff.mpr ⟨numeral, le⟩),
      if_neg (by omega)]

theorem parseMemorySize_eq_error_iff {fault : SizeFault} :
    parseMemorySize text = .error fault ↔ fault.Raised text.toList := by
  constructor
  · intro error
    cases hr : readNumeral 10 sizeLimit (withoutPlus text.toList) with
    | error reason =>
      cases error.symm.trans (parseMemorySize_of_error hr)
      exact SizeFault.raised_notANumeral_iff.mpr (readNumeral_eq_error_iff.mp hr)
    | ok n =>
      rw [parseMemorySize_of_ok hr] at error
      split at error
      · cases error
        exact .belowMinimum (readNumeral_withoutPlus_eq_ok_iff.mp hr).1 ‹_›
      · cases error
  · intro h
    cases fault with
    | notANumeral reason =>
      exact parseMemorySize_of_error
        (readNumeral_eq_error_iff.mpr (SizeFault.raised_notANumeral_iff.mp h))
    | belowMinimum =>
      cases h with
      | @belowMinimum n numeral small =>
        have le : n ≤ sizeLimit := Nat.le_trans (Nat.le_of_lt small) (by decide)
        rw [parseMemorySize_of_ok (readNumeral_withoutPlus_eq_ok_iff.mpr ⟨numeral, le⟩)]
        exact if_pos small

end Parse

/-- A memory size is read just if it is a numeral of a size that a memory may have and 64 bits can hold,
and every other text is refused for the cause that comes first. Each cause has its own wording. -/
theorem parseMemorySize_exact (text : String) :
    (∀ n, parseMemorySize text = .ok n ↔
      SizeNumeral text.toList n ∧ 256 ≤ n ∧ n ≤ 2 ^ 64 - 1) ∧
    (∀ n, parseMemorySize text = .ok n →
      ∃ memory, Memory.ofSize n = .ok memory ∧ memory.size = n) ∧
    (∀ fault, parseMemorySize text = .error fault ↔ fault.Raised text.toList) ∧
    (SizeFault.notANumeral .empty).message = "cannot parse integer from empty string" ∧
    (SizeFault.notANumeral .invalidDigit).message = "invalid digit found in string" ∧
    (SizeFault.notANumeral .tooLarge).message = "number too large to fit in target type" ∧
    SizeFault.belowMinimum.message = "must be at least 256" := by
  refine ⟨fun n => parseMemorySize_eq_ok_iff, fun n ok => ?_, fun fault => parseMemorySize_eq_error_iff,
    rfl, rfl, rfl, by decide +kernel⟩
  obtain ⟨-, enough, -⟩ := parseMemorySize_eq_ok_iff.mp ok
  exact ⟨_, Memory.ofSize_of_le enough, Array.size_replicate⟩

/-- Signs, leading zeros, a numeral that is too large before it is malformed, and one of the greatest size
that is malformed before it is too large. -/
theorem parseMemorySize_exact_edges :
    parseMemorySize "+000256" = .ok 256 ∧ (∃ memory, Memory.ofSize 256 = .ok memory) ∧
      SizeFault.Raised "+0255".toList .belowMinimum ∧
      SizeFault.Raised "+18446744073709551616x".toList (.notANumeral .tooLarge) ∧
      SizeFault.Raised "18446744073709551615x6".toList (.notANumeral .invalidDigit) := by
  have ok : parseMemorySize "+000256" = .ok 256 := by decide +kernel
  obtain ⟨memory, made, -⟩ := (parseMemorySize_exact "+000256").2.1 256 ok
  refine ⟨ok, ⟨memory, made⟩, ?_, ?_, ?_⟩
  · exact ((parseMemorySize_exact "+0255").2.2.1 _).mp (by decide +kernel)
  · exact ((parseMemorySize_exact "+18446744073709551616x").2.2.1 _).mp (by decide +kernel)
  · exact ((parseMemorySize_exact "18446744073709551615x6").2.2.1 _).mp (by decide +kernel)

end LS8
