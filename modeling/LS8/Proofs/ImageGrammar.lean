import LS8.Image.Parser
import LS8.Proofs.Numerals
import Mathlib.Data.List.Forall2
import Mathlib.Data.List.DropRight

/-! The grammar of program images. A text is an image just if each of its lines holds nothing or one
byte, and the image is made up of these bytes in the order of the lines. -/

namespace LS8

/-- The lines of a text. A carriage return right before a line feed belongs to the line end, and behind
the last line feed there is no line unless there is text. -/
inductive Lines : List Char → List (List Char) → Prop
  | nil : Lines [] []
  | last {line : List Char} (text : line ≠ []) (noFeed : '\n' ∉ line) : Lines line [line]
  | feed {line rest : List Char} {lines : List (List Char)} (noFeed : '\n' ∉ line)
      (noReturn : line.getLast? ≠ some '\r') (more : Lines rest lines) :
      Lines (line ++ '\n' :: rest) (line :: lines)
  | returnFeed {line rest : List Char} {lines : List (List Char)} (noFeed : '\n' ∉ line)
      (more : Lines rest lines) : Lines (line ++ '\r' :: '\n' :: rest) (line :: lines)

inductive Comment : List Char → Prop
  | none : Comment []
  | some (text : List Char) : Comment ('#' :: text)

def Blanks (text : List Char) : Prop := ∀ c ∈ text, isBlank c

instance (text : List Char) : Decidable (Blanks text) :=
  decidable_of_iff (text.all isBlank = true) List.all_eq_true

/-- A row of binary digits that stands for a byte. -/
structure BinaryByte (digits : List Char) (value : UInt8) : Prop where
  nonempty : digits ≠ []
  binary : ∀ c ∈ digits, c = '0' ∨ c = '1'
  value_eq : numeralValue 2 digits = value.toNat

/-- What a line holds: nothing, or one byte. -/
inductive LineHolds : List Char → Option UInt8 → Prop
  | nothing {blanks comment : List Char} (blank : Blanks blanks) (tail : Comment comment) :
      LineHolds (blanks ++ comment) none
  | byte {before digits after comment : List Char} {value : UInt8} (blank : Blanks before)
      (byte : BinaryByte digits value) (blank' : Blanks after) (tail : Comment comment) :
      LineHolds (before ++ digits ++ after ++ comment) (some value)

section Trim

variable {text before middle after : List Char}

theorem trimBlanks_append_right (h : Blanks after) : trimBlanks (text ++ after) = trimBlanks text := by
  have hr : ∀ c ∈ after.reverse, isBlank c := fun c hc => h c (List.mem_reverse.mp hc)
  rw [trimBlanks, trimBlanks, List.dropWhile_append]
  split
  · rename_i he
    rw [List.isEmpty_iff.mp he, List.dropWhile_eq_nil_iff.mpr h]
  · rw [List.reverse_append, List.dropWhile_append_of_pos hr]

theorem trimBlanks_append_left (h : Blanks before) : trimBlanks (before ++ text) = trimBlanks text := by
  rw [trimBlanks, trimBlanks, List.dropWhile_append_of_pos h]

theorem dropWhile_isBlank_of_solid (solid : ∀ c ∈ text, ¬ isBlank c) :
    text.dropWhile isBlank = text :=
  List.dropWhile_eq_self_iff.mpr fun pos => solid _ (List.getElem_mem pos)

theorem trimBlanks_of_solid (solid : ∀ c ∈ text, ¬ isBlank c) : trimBlanks text = text := by
  have hr : ∀ c ∈ text.reverse, ¬ isBlank c := fun c hc => solid c (List.mem_reverse.mp hc)
  rw [trimBlanks, dropWhile_isBlank_of_solid solid, dropWhile_isBlank_of_solid hr,
    List.reverse_reverse]

theorem trimBlanks_append (hb : Blanks before) (ha : Blanks after)
    (solid : ∀ c ∈ middle, ¬ isBlank c) : trimBlanks (before ++ middle ++ after) = middle := by
  rw [trimBlanks_append_right ha, trimBlanks_append_left hb, trimBlanks_of_solid solid]

theorem trimBlanks_of_blanks (h : Blanks text) : trimBlanks text = [] := by
  have he : trimBlanks ([] ++ text) = trimBlanks [] := trimBlanks_append_right h
  exact he

theorem blanks_takeWhile (text : List Char) : Blanks (text.takeWhile isBlank) :=
  fun _ hc => List.mem_takeWhile_imp hc

theorem exists_eq_trimBlanks (text : List Char) :
    ∃ before after, Blanks before ∧ Blanks after ∧ text = before ++ trimBlanks text ++ after := by
  let body := text.dropWhile isBlank
  have after : Blanks (body.reverse.takeWhile isBlank).reverse := fun c hc =>
    blanks_takeWhile body.reverse c (List.mem_reverse.mp hc)
  refine ⟨text.takeWhile isBlank, _, blanks_takeWhile text, after, ?_⟩
  have hb : body = trimBlanks text ++ (body.reverse.takeWhile isBlank).reverse := by
    rw [trimBlanks, ← List.reverse_append, List.takeWhile_append_dropWhile, List.reverse_reverse]
  rw [List.append_assoc, ← hb, List.takeWhile_append_dropWhile]

end Trim

section Line

variable {front comment line digits : List Char} {value : UInt8}

theorem significantText_append_comment (noSign : '#' ∉ front) (tail : Comment comment) :
    significantText (front ++ comment) = trimBlanks front := by
  have hf : ∀ c ∈ front, decide (c ≠ '#') = true := fun c hc => by
    have hne : c ≠ '#' := fun he => noSign (he ▸ hc)
    simpa using hne
  rw [significantText, List.takeWhile_append_of_pos hf]
  cases tail <;> simp

theorem exists_eq_append_comment (line : List Char) :
    ∃ front comment, '#' ∉ front ∧ Comment comment ∧ line = front ++ comment := by
  refine ⟨line.takeWhile (· ≠ '#'), line.dropWhile (· ≠ '#'), fun hm => ?_, ?_,
    List.takeWhile_append_dropWhile.symm⟩
  · simpa using List.mem_takeWhile_imp hm
  · have hn := List.head?_dropWhile_not (· ≠ '#') line
    cases hd : line.dropWhile (· ≠ '#') with
    | nil => exact .none
    | cons c rest =>
      rw [hd] at hn
      obtain rfl : c = '#' := by simpa using hn
      exact .some rest

theorem Blanks.noSign (h : Blanks front) : '#' ∉ front := fun hm => absurd (h _ hm) (by decide)

theorem BinaryByte.noSign (h : BinaryByte digits value) : '#' ∉ digits := fun hm =>
  absurd (h.binary _ hm) (by decide)

theorem BinaryByte.solid (h : BinaryByte digits value) : ∀ c ∈ digits, ¬ isBlank c := by
  intro c hc
  rcases h.binary c hc with rfl | rfl <;> decide

theorem lineHolds_none_iff : LineHolds line none ↔ significantText line = [] := by
  constructor
  · intro h
    cases h with
    | nothing blank tail =>
      rw [significantText_append_comment blank.noSign tail, trimBlanks_of_blanks blank]
  · intro h
    obtain ⟨front, comment, noSign, tail, rfl⟩ := exists_eq_append_comment line
    obtain ⟨before, after, hb, ha, ht⟩ := exists_eq_trimBlanks front
    rw [significantText_append_comment noSign tail] at h
    rw [h, List.append_nil] at ht
    refine .nothing (fun c hc => ?_) tail
    rw [ht] at hc
    exact (List.mem_append.mp hc).elim (hb c) (ha c)

theorem lineHolds_some_iff :
    LineHolds line (some value) ↔ BinaryByte (significantText line) value := by
  constructor
  · intro h
    cases h with
    | @byte before digits after comment _ hb byte ha tail =>
      have noSign : '#' ∉ before ++ digits ++ after := by
        simp [hb.noSign, byte.noSign, ha.noSign]
      rw [significantText_append_comment noSign tail, trimBlanks_append hb ha byte.solid]
      exact byte
  · intro byte
    obtain ⟨front, comment, noSign, tail, rfl⟩ := exists_eq_append_comment line
    obtain ⟨before, after, hb, ha, ht⟩ := exists_eq_trimBlanks front
    rw [significantText_append_comment noSign tail] at byte
    rw [ht]
    exact .byte hb byte ha tail

theorem significantText_append_return (line : List Char) :
    significantText (line ++ ['\r']) = significantText line := by
  obtain ⟨front, comment, noSign, tail, rfl⟩ := exists_eq_append_comment line
  have blank : Blanks ['\r'] := by decide
  -- the return is a blank behind the text, or it is a part of the comment
  cases tail with
  | none =>
    have noSign' : '#' ∉ front ++ ['\r'] := by simp [noSign]
    have hr := significantText_append_comment noSign' .none
    have hf := significantText_append_comment noSign .none
    rw [List.append_nil] at hr hf ⊢
    rw [hr, hf, trimBlanks_append_right blank]
  | some text =>
    have hr := significantText_append_comment noSign (.some (text ++ ['\r']))
    have hf := significantText_append_comment noSign (.some text)
    rw [List.append_assoc, List.cons_append, hr, hf]

theorem Literal.byte_eq_ok_iff {l : Literal} : l.byte = .ok value ↔ BinaryByte l.text value := by
  constructor
  · intro h
    rw [byte] at h
    split at h
    · rename_i n hn
      cases h
      obtain ⟨nonempty, digits, rfl, le⟩ := readNumeral_eq_ok_iff.mp hn
      refine ⟨nonempty, forall_isDigit_two_iff.mp digits, ?_⟩
      exact (UInt8.toNat_ofNat_of_lt' (Nat.lt_succ_of_le le)).symm
    · cases h
  · rintro ⟨nonempty, binary, he⟩
    have le : value.toNat ≤ 0xFF := Nat.le_of_lt_succ value.toNat_lt
    have hn : readNumeral 2 0xFF l.text = .ok value.toNat :=
      readNumeral_eq_ok_iff.mpr ⟨nonempty, forall_isDigit_two_iff.mpr binary, he.symm, le⟩
    simp only [byte, hn, UInt8.ofNat_toNat]

theorem Literal.eq_of_byte_eq_error {l fault : Literal} (h : l.byte = .error fault) : fault = l := by
  rw [byte] at h
  split at h <;> cases h
  rfl

end Line

/-- The literal of a line, if it holds one. -/
def Literal.ofLine? : List Char × Nat → Option Literal := fun (line, number) =>
  let text := significantText line
  if text.isEmpty then none else some ⟨number, text⟩

theorem Literal.ofLine?_of_nothing {line : List Char} (h : significantText line = [])
    (number : Nat) : Literal.ofLine? (line, number) = none := by
  simp [ofLine?, h]

theorem Literal.ofLine?_of_text {line : List Char} (h : significantText line ≠ []) (number : Nat) :
    Literal.ofLine? (line, number) = some ⟨number, significantText line⟩ := by
  simp [ofLine?, h]

theorem Lines.ofSource_eq {source : List Char} {lines : List (List Char)} (h : Lines source lines) :
    Literal.ofSource source = (lines.zipIdx 1).filterMap Literal.ofLine? := by
  -- the numbers start anywhere, so that the induction can go on behind the first line
  have general (number : Nat) : ((source.splitOn '\n').zipIdx number).filterMap Literal.ofLine? =
      (lines.zipIdx number).filterMap Literal.ofLine? := by
    induction h generalizing number with
    | nil => rfl
    | last text noFeed => rw [List.splitOn_eq_singleton noFeed]
    | feed noFeed noReturn more ih =>
      rw [List.splitOn_append_cons_self_of_not_mem noFeed, List.zipIdx_cons, List.zipIdx_cons,
        List.filterMap_cons, List.filterMap_cons, ih]
    | @returnFeed line rest lines noFeed more ih =>
      have noFeed' : '\n' ∉ line ++ ['\r'] := by simp [noFeed]
      have hr : Literal.ofLine? (line ++ ['\r'], number) = Literal.ofLine? (line, number) := by
        simp only [Literal.ofLine?, significantText_append_return]
      rw [List.append_cons, List.splitOn_append_cons_self_of_not_mem noFeed', List.zipIdx_cons,
        List.zipIdx_cons, List.filterMap_cons, List.filterMap_cons, hr, ih]
  exact general 1

theorem mapM_byte_eq_ok_iff {lines : List (List Char)} {number : Nat} {image : Image} :
    ((lines.zipIdx number).filterMap Literal.ofLine?).mapM Literal.byte = .ok image ↔
      ∃ held, List.Forall₂ LineHolds lines held ∧ image = held.filterMap id := by
  induction lines generalizing number image with
  | nil =>
    constructor
    · intro h
      cases h
      exact ⟨[], .nil, rfl⟩
    · rintro ⟨_, ⟨⟩, rfl⟩
      rfl
  | cons line lines ih =>
    rw [List.zipIdx_cons, List.filterMap_cons]
    by_cases nothing : significantText line = []
    · rw [Literal.ofLine?_of_nothing nothing, ih]
      constructor
      · rintro ⟨held, hh, hi⟩
        exact ⟨none :: held, .cons (lineHolds_none_iff.mpr nothing) hh, hi⟩
      · rintro ⟨_, ⟨⟩, hi⟩
        rename_i v held hv hh
        cases v with
        | none => exact ⟨held, hh, hi⟩
        | some value => exact ((lineHolds_some_iff.mp hv).nonempty nothing).elim
    · rw [Literal.ofLine?_of_text nothing, List.mapM_cons]
      constructor
      · intro h
        obtain ⟨value, hv, h⟩ := eq_ok_of_bind_eq_ok h
        obtain ⟨bytes, hb, h⟩ := eq_ok_of_bind_eq_ok h
        cases h
        obtain ⟨held, hh, rfl⟩ := ih.mp hb
        have byte := lineHolds_some_iff.mpr (Literal.byte_eq_ok_iff.mp hv)
        exact ⟨some value :: held, .cons byte hh, rfl⟩
      · rintro ⟨_, ⟨⟩, rfl⟩
        rename_i v held hv hh
        cases v with
        | none => exact (nothing (lineHolds_none_iff.mp hv)).elim
        | some value =>
          have byte : Literal.byte ⟨number, significantText line⟩ = .ok value :=
            Literal.byte_eq_ok_iff.mpr (lineHolds_some_iff.mp hv)
          rw [byte, ih.mpr ⟨held, hh, rfl⟩]
          rfl

theorem exists_lines (source : List Char) : ∃ lines, Lines source lines := by
  induction hn : source.length using Nat.strongRecOn generalizing source with
  | ind n ih =>
    by_cases feed : '\n' ∈ source
    · obtain ⟨line, rest, rfl, noFeed⟩ := List.eq_append_cons_of_mem feed
      have shorter : rest.length < n := by
        rw [← hn, List.length_append, List.length_cons]
        omega
      obtain ⟨lines, more⟩ := ih _ shorter rest rfl
      by_cases returns : line.getLast? = some '\r'
      · obtain ⟨front, rfl⟩ := List.getLast?_eq_some_iff.mp returns
        rw [List.append_assoc]
        exact ⟨front :: lines, .returnFeed (fun hm => noFeed (by simp [hm])) more⟩
      · exact ⟨line :: lines, .feed noFeed returns more⟩
    · cases source with
      | nil => exact ⟨[], .nil⟩
      | cons c rest => exact ⟨[c :: rest], .last (List.cons_ne_nil c rest) feed⟩

/-- The texts that are read as an image, and the image that they are read as. -/
theorem Image.parse_eq_ok_iff (source : String) (image : Image) :
    Image.parse source = .ok image ↔
      ∃ lines held, Lines source.toList lines ∧ List.Forall₂ LineHolds lines held ∧
        image = held.filterMap id := by
  constructor
  · intro h
    obtain ⟨lines, hl⟩ := exists_lines source.toList
    rw [parse, hl.ofSource_eq, mapM_byte_eq_ok_iff] at h
    obtain ⟨held, hh, hi⟩ := h
    exact ⟨lines, held, hl, hh, hi⟩
  · rintro ⟨lines, held, hl, hh, hi⟩
    rw [parse, hl.ofSource_eq, mapM_byte_eq_ok_iff]
    exact ⟨held, hh, hi⟩

example : Image.parse "1\r\n# 2\n\u00a0010 #\n" = .ok [1, 2] := by decide

end LS8
