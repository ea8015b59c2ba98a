import LS8.Numeral
import Mathlib.Algebra.Order.Ring.Nat
import Mathlib.Tactic.Ring

/-! The numerals that are read. A text is read just if it is a nonempty row of digits, and it is read as
the sum of its digits, each times a power of the base. Leading zeros count for nothing, and the number
of digits behind them tells between which powers of the base the value lies. A text that is not read is
refused for the first of its characters that is at fault. -/

namespace LS8

def IsDigit (base : Nat) (c : Char) : Prop := c.isDigit ∧ c.toNat - '0'.toNat < base

def numeralValue (base : Nat) : List Char → Nat
  | [] => 0
  | c :: rest => (c.toNat - '0'.toNat) * base ^ rest.length + numeralValue base rest

theorem digit?_of_isDigit {base : Nat} {c : Char} (h : IsDigit base c) :
    digit? base c = some (c.toNat - '0'.toNat) := if_pos h

theorem digit?_of_not_isDigit {base : Nat} {c : Char} (h : ¬ IsDigit base c) :
    digit? base c = none := if_neg h

theorem readDigits_eq_ok_iff {base limit value n : Nat} {text : List Char} (le : value ≤ limit) :
    readDigits base limit value text = .ok n ↔
      (∀ c ∈ text, IsDigit base c) ∧ n = value * base ^ text.length + numeralValue base text ∧
        n ≤ limit := by
  induction text generalizing value with
  | nil =>
    simp only [readDigits, numeralValue, Except.ok.injEq, List.length_nil, pow_zero, mul_one]
    constructor
    · rintro rfl
      exact ⟨nofun, rfl, le⟩
    · rintro ⟨-, rfl, -⟩
      rfl
  | cons c rest ih =>
    rw [List.forall_mem_cons]
    by_cases hc : IsDigit base c
    · have split : value * base ^ (c :: rest).length + numeralValue base (c :: rest) =
          (base * value + (c.toNat - '0'.toNat)) * base ^ rest.length + numeralValue base rest := by
        rw [numeralValue, List.length_cons]
        ring
      by_cases hle : base * value + (c.toNat - '0'.toNat) ≤ limit
      · simp only [readDigits, digit?_of_isDigit hc, hle, if_true, ih hle, split, hc, true_and]
      · -- past the limit reading stops, and the digits to come could only add to the value
        have pos : 0 < base ^ rest.length := Nat.pow_pos (Nat.zero_lt_of_lt hc.2)
        have grows := Nat.le_mul_of_pos_right (base * value + (c.toNat - '0'.toNat)) pos
        simp only [readDigits, digit?_of_isDigit hc, hle, if_false, split, reduceCtorEq, false_iff]
        rintro ⟨-, rfl, hn⟩
        omega
    · simp only [readDigits, digit?_of_not_isDigit hc, hc, false_and, reduceCtorEq]

theorem readNumeral_eq_ok_iff {base limit n : Nat} {text : List Char} :
    readNumeral base limit text = .ok n ↔
      text ≠ [] ∧ (∀ c ∈ text, IsDigit base c) ∧ n = numeralValue base text ∧ n ≤ limit := by
  cases text with
  | nil => simp [readNumeral]
  | cons c rest =>
    have h := @readDigits_eq_ok_iff base limit 0 n (c :: rest) (Nat.zero_le limit)
    simpa [readNumeral] using h

theorem numeralValue_lt_pow {base : Nat} {text : List Char}
    (digits : ∀ c ∈ text, IsDigit base c) : numeralValue base text < base ^ text.length := by
  induction text with
  | nil => exact Nat.zero_lt_one
  | cons c rest ih =>
    obtain ⟨⟨-, hc⟩, hr⟩ := List.forall_mem_cons.mp digits
    have hlt := ih hr
    calc numeralValue base (c :: rest)
        < (c.toNat - '0'.toNat) * base ^ rest.length + base ^ rest.length := Nat.add_lt_add_left hlt _
      _ = (c.toNat - '0'.toNat + 1) * base ^ rest.length := (Nat.succ_mul _ _).symm
      _ ≤ base * base ^ rest.length := Nat.mul_le_mul_right _ hc
      _ = base ^ (c :: rest).length := by rw [List.length_cons, Nat.pow_succ, Nat.mul_comm]

theorem numeralValue_dropWhile_zero (base : Nat) (text : List Char) :
    numeralValue base (text.dropWhile (· = '0')) = numeralValue base text := by
  induction text with
  | nil => rfl
  | cons c rest ih =>
    by_cases zero : c = '0'
    · rw [List.dropWhile_cons_of_pos (by simpa using zero), ih, numeralValue, zero, Nat.sub_self,
        Nat.zero_mul, Nat.zero_add]
    · rw [List.dropWhile_cons_of_neg (by simpa using zero)]

theorem pow_le_numeralValue {base : Nat} {c : Char} (digit : IsDigit base c) (notZero : c ≠ '0')
    (rest : List Char) : base ^ rest.length ≤ numeralValue base (c :: rest) := by
  have ge := (Char.isDigit_iff_toNat.mp digit.1).1
  have ne : c.toNat ≠ '0'.toNat := fun he => notZero (Char.toNat_inj.mp he)
  have one : 1 ≤ c.toNat - '0'.toNat := by omega
  calc base ^ rest.length
      ≤ (c.toNat - '0'.toNat) * base ^ rest.length := Nat.le_mul_of_pos_left _ one
    _ ≤ numeralValue base (c :: rest) := Nat.le_add_right _ _

/-- How large a number is can be told by how many digits it has behind its leading zeros. -/
theorem numeralValue_lt_pow_iff {base k : Nat} {text : List Char} (hb : 1 < base)
    (digits : ∀ c ∈ text, IsDigit base c) :
    numeralValue base text < base ^ k ↔ (text.dropWhile (· = '0')).length ≤ k := by
  have digits' : ∀ c ∈ text.dropWhile (· = '0'), IsDigit base c := fun c hc =>
    digits c ((List.dropWhile_suffix _).subset hc)
  have lead := List.head?_dropWhile_not (· = '0') text
  rw [← numeralValue_dropWhile_zero]
  generalize text.dropWhile (· = '0') = significant at digits' lead
  constructor
  · intro lt
    cases significant with
    | nil => exact Nat.zero_le k
    | cons c rest =>
      have notZero : c ≠ '0' := by simpa using lead
      have ge := pow_le_numeralValue (digits' c List.mem_cons_self) notZero rest
      exact (Nat.pow_lt_pow_iff_right hb).mp (Nat.lt_of_le_of_lt ge lt)
  · intro le
    have lt := numeralValue_lt_pow digits'
    exact Nat.lt_of_lt_of_le lt (Nat.pow_le_pow_right (Nat.zero_lt_of_lt hb) le)

theorem isDigit_two_iff {c : Char} : IsDigit 2 c ↔ c = '0' ∨ c = '1' := by
  constructor
  · rintro ⟨digit, lt⟩
    have ge := (Char.isDigit_iff_toNat.mp digit).1
    have one : '1'.toNat = '0'.toNat + 1 := rfl
    obtain h | h : c.toNat = '0'.toNat ∨ c.toNat = '1'.toNat := by omega
    · exact .inl (Char.toNat_inj.mp h)
    · exact .inr (Char.toNat_inj.mp h)
  · rintro (rfl | rfl)
    · exact ⟨rfl, Nat.zero_lt_two⟩
    · exact ⟨rfl, Nat.one_lt_two⟩

theorem forall_isDigit_two_iff {text : List Char} :
    (∀ c ∈ text, IsDigit 2 c) ↔ ∀ c ∈ text, c = '0' ∨ c = '1' :=
  forall₂_congr fun _ _ => isDigit_two_iff

theorem isDigit_ten_iff {c : Char} : IsDigit 10 c ↔ c.isDigit := by
  refine ⟨And.left, fun digit => ⟨digit, ?_⟩⟩
  have le := (Char.isDigit_iff_toNat.mp digit).2
  have zero : '0'.toNat = 48 := rfl
  have nine : '9'.toNat = 57 := rfl
  omega

theorem forall_isDigit_ten_iff {text : List Char} :
    (∀ c ∈ text, IsDigit 10 c) ↔ ∀ c ∈ text, c.isDigit :=
  forall₂_congr fun _ _ => isDigit_ten_iff

theorem ofDigitChars_eq_numeralValue (base value : Nat) (text : List Char) :
    Nat.ofDigitChars base text value = value * base ^ text.length + numeralValue base text := by
  induction text generalizing value with
  | nil => simp [Nat.ofDigitChars_nil, numeralValue]
  | cons c rest ih =>
    rw [Nat.ofDigitChars_cons, ih, numeralValue, List.length_cons]
    ring

theorem numeralValue_append (base : Nat) (front rest : List Char) :
    numeralValue base (front ++ rest) =
      numeralValue base front * base ^ rest.length + numeralValue base rest := by
  have h := ofDigitChars_eq_numeralValue base 0 (front ++ rest)
  rw [Nat.ofDigitChars_append, ofDigitChars_eq_numeralValue, ofDigitChars_eq_numeralValue] at h
  simpa using h.symm

theorem numeralValue_concat (base : Nat) (text : List Char) (c : Char) :
    numeralValue base (text ++ [c]) = base * numeralValue base text + (c.toNat - '0'.toNat) := by
  rw [numeralValue_append]
  simp [numeralValue, Nat.mul_comm]

/-- A character is at fault if it is no digit, or if with it the digits so far make too large a value. -/
def AtFault (base limit : Nat) (before : List Char) (c : Char) : Prop :=
  ¬ IsDigit base c ∨ limit < numeralValue base (before ++ [c])

/-- The first character of the text that is at fault, and what stands before it. -/
structure FirstAtFault (base limit : Nat) (text front : List Char) (c : Char) : Prop where
  isFront : front ++ [c] <+: text
  atFault : AtFault base limit front c
  first : ∀ before d, before ++ [d] <+: front → ¬ AtFault base limit before d

theorem FirstAtFault.unique {base limit : Nat} {text front front' : List Char} {c c' : Char}
    (h : FirstAtFault base limit text front c) (h' : FirstAtFault base limit text front' c') :
    front = front' ∧ c = c' := by
  have same {front front' : List Char} {c c' : Char} (h : FirstAtFault base limit text front c)
      (h' : FirstAtFault base limit text front' c') (le : front ++ [c] <+: front' ++ [c']) :
      front = front' ∧ c = c' := by
    rcases List.prefix_concat_iff.mp le with eq | shorter
    · simpa using eq
    · exact (h'.first _ _ shorter h.atFault).elim
  rcases List.prefix_or_prefix_of_prefix h.isFront h'.isFront with le | le
  · exact same h h' le
  · obtain ⟨hf, hc⟩ := same h' h le
    exact ⟨hf.symm, hc.symm⟩

theorem not_atFault_of_le {base limit : Nat} {text before : List Char} {c : Char}
    (digits : ∀ d ∈ text, IsDigit base d) (le : numeralValue base text ≤ limit)
    (front : before ++ [c] <+: text) : ¬ AtFault base limit before c := by
  obtain ⟨rest, rfl⟩ := front
  rintro (noDigit | large)
  · exact noDigit (digits c (by simp))
  · have digit : IsDigit base c := digits c (by simp)
    have pos : 0 < base ^ rest.length := Nat.pow_pos (Nat.zero_lt_of_lt digit.2)
    have grows := Nat.le_mul_of_pos_right (numeralValue base (before ++ [c])) pos
    rw [numeralValue_append] at le
    omega

/-- Why a text is no numeral with a value within the limit. -/
inductive NumeralFault.Raised (base limit : Nat) (text : List Char) : NumeralFault → Prop
  | empty (h : text = []) : Raised base limit text .empty
  | invalidDigit {front : List Char} {c : Char} (first : FirstAtFault base limit text front c)
      (h : ¬ IsDigit base c) : Raised base limit text .invalidDigit
  | tooLarge {front : List Char} {c : Char} (first : FirstAtFault base limit text front c)
      (h : IsDigit base c) : Raised base limit text .tooLarge

theorem raised_of_readDigits {base limit : Nat} {fault : NumeralFault} {done rest : List Char}
    (digits : ∀ c ∈ done, IsDigit base c) (le : numeralValue base done ≤ limit)
    (h : readDigits base limit (numeralValue base done) rest = .error fault) :
    fault.Raised base limit (done ++ rest) := by
  -- what has been read is within the limit, so the first fault is still to come
  induction rest generalizing done with
  | nil => cases h
  | cons c rest ih =>
    have isFront : done ++ [c] <+: done ++ c :: rest := ⟨rest, by simp⟩
    have first (atFault : AtFault base limit done c) :
        FirstAtFault base limit (done ++ c :: rest) done c :=
      ⟨isFront, atFault, fun _ _ => not_atFault_of_le digits le⟩
    have value := numeralValue_concat base done c
    by_cases digit : IsDigit base c
    · simp only [readDigits, digit?_of_isDigit digit, ← value] at h
      split at h
      · have digits' : ∀ d ∈ done ++ [c], IsDigit base d := by
          simpa [or_imp, forall_and] using ⟨digits, digit⟩
        have hr := ih digits' ‹_› h
        rwa [List.append_assoc] at hr
      · cases h
        exact .tooLarge (first (.inr (by omega))) digit
    · simp only [readDigits, digit?_of_not_isDigit digit] at h
      cases h
      exact .invalidDigit (first (.inl digit)) digit

section Raised

variable {base limit : Nat} {text : List Char} {fault : NumeralFault}

theorem NumeralFault.Raised.unique {fault' : NumeralFault} (h : fault.Raised base limit text)
    (h' : fault'.Raised base limit text) : fault = fault' := by
  cases h with
  | empty empty =>
    cases h' with
    | empty => rfl
    | invalidDigit first | tooLarge first => simpa [empty] using first.isFront
  | invalidDigit first noDigit =>
    cases h' with
    | empty empty => simpa [empty] using first.isFront
    | invalidDigit => rfl
    | tooLarge first' digit => exact (noDigit ((first.unique first').2 ▸ digit)).elim
  | tooLarge first digit =>
    cases h' with
    | empty empty => simpa [empty] using first.isFront
    | invalidDigit first' noDigit => exact (noDigit ((first.unique first').2 ▸ digit)).elim
    | tooLarge => rfl

theorem NumeralFault.Raised.not_ok (h : fault.Raised base limit text) (n : Nat) :
    readNumeral base limit text ≠ .ok n := by
  intro ok
  obtain ⟨nonempty, digits, rfl, le⟩ := readNumeral_eq_ok_iff.mp ok
  cases h with
  | empty empty => exact nonempty empty
  | invalidDigit first | tooLarge first =>
    exact not_atFault_of_le digits le first.isFront first.atFault

/-- Reading fails at the first character that is at fault, and what is wrong with that one is reported. -/
theorem readNumeral_eq_error_iff :
    readNumeral base limit text = .error fault ↔ fault.Raised base limit text := by
  have raised {fault : NumeralFault} (h : readNumeral base limit text = .error fault) :
      fault.Raised base limit text := by
    cases text with
    | nil =>
      cases h
      exact .empty rfl
    | cons c rest => exact @raised_of_readDigits base limit fault [] _ nofun (Nat.zero_le limit) h
  refine ⟨raised, fun h => ?_⟩
  cases hr : readNumeral base limit text with
  | ok n => exact (h.not_ok n hr).elim
  | error fault' => rw [h.unique (raised hr)]

end Raised

end LS8
