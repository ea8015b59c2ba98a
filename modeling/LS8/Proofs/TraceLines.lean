import LS8.Machine.Basic
import LS8.Proofs.RegisterFile
import LS8.Proofs.WrittenNumerals

/-! Trace lines, read back. A line is a row of words with blanks between them, so its words are told by the
line. They give the program counter, the cells in view and the registers, whatever the size of the memory
and however many digits the program counter has. -/

namespace LS8

/-- The words of a snapshot: its program counter, and behind a bar each the cells and the registers. -/
def Snapshot.words (s : Snapshot) : List String :=
  ["TRACE:", upperHex 2 s.pc, "|"] ++ s.window.map cellText ++ "|" :: s.registers.toList.map byteText

theorem byteText_inj {a b : UInt8} (h : byteText a = byteText b) : a = b :=
  UInt8.toNat_inj.mp (upperHex_inj h)

theorem byteText_ne_dashes (byte : UInt8) : byteText byte ≠ "--" := by
  have dash : '-' ∉ (byteText byte).toList := not_mem_upperHex (by decide)
  intro h
  rw [h] at dash
  exact dash (by decide)

theorem cellText_inj {a b : Option UInt8} (h : cellText a = cellText b) : a = b := by
  cases a with
  | none =>
    cases b with
    | none => rfl
    | some byte => exact (byteText_ne_dashes byte h.symm).elim
  | some byte =>
    cases b with
    | none => exact (byteText_ne_dashes byte h).elim
    | some byte' => rw [byteText_inj h]

theorem Registers.length_toList (r : Registers) : r.toList.length = registerCount :=
  Vector.length_toList

theorem Registers.toList_inj {r s : Registers} (h : r.toList = s.toList) : r = s :=
  Registers.ext (Vector.toList_inj.mp h)

/-- No word has a blank in it. -/
theorem Snapshot.noBlank {s : Snapshot} {word : String} (h : word ∈ s.words) : ' ' ∉ word.toList := by
  have hex {width n : Nat} : ' ' ∉ (upperHex width n).toList := not_mem_upperHex (by decide)
  simp only [words, List.mem_append, List.mem_cons, List.mem_map, List.not_mem_nil, or_false] at h
  rcases h with ((rfl | rfl | rfl) | ⟨cell, -, rfl⟩) | rfl | ⟨byte, -, rfl⟩
  · decide
  · exact hex
  · decide
  · cases cell with
    | none => decide
    | some byte => exact hex
  · decide
  · exact hex

theorem Snapshot.line_eq_words {s : Snapshot} (shown : s.window ≠ []) :
    s.line = " ".intercalate s.words := by
  have cells : s.window.map cellText ≠ [] := by simpa using shown
  have registers : s.registers.toList.map byteText ≠ [] := by
    intro h
    have none := s.registers.length_toList
    rw [List.map_eq_nil_iff.mp h] at none
    cases none
  rw [line, words, String.intercalate_append_of_ne_nil (by simp) (by simp),
    String.intercalate_append_of_ne_nil (by simp) cells, String.intercalate_cons_of_ne_nil registers]
  have bar (text : String) : " | " ++ text = " " ++ ("| " ++ text) := by
    rw [← String.append_assoc]
    rfl
  simp [String.intercalate_cons_cons, String.append_assoc, bar]

theorem Snapshot.splitOn_line {s : Snapshot} (shown : s.window ≠ []) :
    s.line.toList.splitOn ' ' = s.words.map String.toList := by
  rw [line_eq_words shown, String.toList_intercalate]
  refine List.splitOn_intercalate ' ' ?_ (by simp [words])
  simpa using fun word => noBlank (s := s)

theorem Memory.window_ne_nil (m : Memory) (address : Nat) : m.window address ≠ [] := nofun

theorem Registers.getElem?_toList (r : Registers) (i : Register) : r.toList[i.val]? = some (r.get i) := by
  rw [toList, Vector.getElem?_toList]
  exact Vector.getElem?_eq_getElem i.isLt

theorem Snapshot.eq_of_words {s t : Snapshot} (h : s.words = t.words) : s = t := by
  simp only [words, List.cons_append, List.nil_append, List.cons.injEq, true_and] at h
  obtain ⟨pc, behind⟩ := h
  -- both end in a bar and as many registers, so the cells end at the same place
  obtain ⟨cells, registers⟩ := List.append_inj' behind (by simp [Registers.length_toList])
  have pc := upperHex_inj pc
  have window := (List.map_inj_right fun _ _ => cellText_inj).mp cells
  have registers := (List.map_inj_right fun _ _ => byteText_inj).mp (List.cons.inj registers).2
  obtain ⟨pc', window', registers'⟩ := s
  cases pc
  cases window
  cases Registers.toList_inj registers
  rfl

/-- A line shows all that a snapshot holds. -/
theorem Snapshot.line_inj {s t : Snapshot} (hs : s.window ≠ []) (ht : t.window ≠ []) :
    s.line = t.line ↔ s = t := by
  refine ⟨fun h => ?_, congrArg line⟩
  have words := congrArg (·.toList.splitOn ' ') h
  simp only [splitOn_line hs, splitOn_line ht] at words
  exact eq_of_words ((List.map_inj_right fun _ _ => String.toList_inj.mp).mp words)

theorem Memory.window_eq_iff {m n : Memory} {a b : Nat} :
    m.window a = n.window b ↔ ∀ offset < windowWidth, m.peek? (a + offset) = n.peek? (b + offset) := by
  simp [window]

theorem Memory.le_of_peek? {m : Memory} {address : Nat} (h : m.peek? address = none) :
    m.size ≤ address := Array.getElem?_eq_none_iff.mp h

theorem Memory.peek?_eq_iff {m n : Memory} {a b : Nat} :
    m.peek? a = n.peek? b ↔
      (∃ byte, m.peek? a = some byte ∧ n.peek? b = some byte) ∨ (m.size ≤ a ∧ n.size ≤ b) := by
  constructor
  · intro h
    cases hm : m.peek? a with
    | none => exact .inr ⟨le_of_peek? hm, le_of_peek? (h.symm.trans hm)⟩
    | some byte => exact .inl ⟨byte, rfl, h.symm.trans hm⟩
  · rintro (⟨byte, hm, hn⟩ | ⟨hm, hn⟩)
    · rw [hm, hn]
    · rw [peek?_of_le hm, peek?_of_le hn]

theorem Machine.snapshot_eq_iff {m n : Machine} :
    m.snapshot = n.snapshot ↔ m.pc = n.pc ∧ m.registers = n.registers ∧
      ∀ offset < windowWidth,
        (∃ byte, m.memory.peek? (m.pc + offset) = some byte ∧
          n.memory.peek? (n.pc + offset) = some byte) ∨
        (m.memory.size ≤ m.pc + offset ∧ n.memory.size ≤ n.pc + offset) := by
  simp only [snapshot, Snapshot.mk.injEq, Memory.window_eq_iff, Memory.peek?_eq_iff, and_comm]

/-- Machines have the same line just if they agree in what it shows, in memories of any size. The program
counter stands in it with all the digits it needs. -/
theorem Machine.line_tells_snapshot (m n : Machine) :
    (∃ field, (m.snapshot.line.toList.splitOn ' ')[1]? = some field ∧ hexValue field = m.pc ∧
      ∀ digits ≥ 2, field.length ≤ digits ↔ m.pc < 16 ^ digits) ∧
    (m.snapshot.line = n.snapshot.line ↔ m.pc = n.pc ∧ m.registers = n.registers ∧
      ∀ offset < 3,
        (∃ byte, m.memory.peek? (m.pc + offset) = some byte ∧
          n.memory.peek? (n.pc + offset) = some byte) ∨
        (m.memory.size ≤ m.pc + offset ∧ n.memory.size ≤ n.pc + offset)) := by
  have hm : m.snapshot.window ≠ [] := m.memory.window_ne_nil m.pc
  have hn : n.snapshot.window ≠ [] := n.memory.window_ne_nil n.pc
  refine ⟨⟨(upperHex 2 m.pc).toList, ?_, hexValue_upperHex 2 m.pc, fun digits le => ?_⟩, ?_⟩
  · rw [Snapshot.splitOn_line hm]
    rfl
  · exact length_upperHex_le_iff (Nat.zero_lt_of_lt le) le m.pc
  · exact (Snapshot.line_inj hm hn).trans snapshot_eq_iff

/-- A program counter of three digits just behind the last cell, and the same one within a larger memory. -/
theorem Machine.line_tells_snapshot_at_end :
    let m : Machine := ⟨.zero, 300, ⟨.replicate 300 0⟩, .running⟩
    let n : Machine := ⟨.zero, 300, ⟨.replicate 512 0⟩, .running⟩
    m.snapshot.line = "TRACE: 12C | -- -- -- | 00 00 00 00 00 00 00 00" ∧
      (∃ field, (m.snapshot.line.toList.splitOn ' ')[1]? = some field ∧ hexValue field = 300 ∧
        field.length ≤ 3) ∧
      m.snapshot.line ≠ n.snapshot.line := by
  intro m n
  obtain ⟨⟨field, second, value, digits⟩, same⟩ := line_tells_snapshot m n
  refine ⟨by decide +kernel, ⟨field, second, value, (digits 3 (by decide)).mpr (by decide)⟩, ?_⟩
  intro line
  have outside : m.memory.peek? 300 = none := by decide +kernel
  have size : n.memory.size = 512 := Array.size_replicate
  rcases (same.mp line).2.2 0 (by decide) with ⟨byte, inside, -⟩ | ⟨-, le⟩
  · cases outside.symm.trans inside
  · rw [size] at le
    exact absurd le (by decide)

end LS8
