import LS8.InPlace

/-! Memory: a row of byte cells with addresses from zero. Its size is fixed when it is made. -/

namespace LS8

/-- A program as it is placed in memory: one byte for each cell, from address zero. -/
abbrev Image := List UInt8

@[ext] structure Memory where
  cells : Array UInt8
deriving DecidableEq

def Memory.size (m : Memory) : Nat := m.cells.size

def Memory.blank : Memory := ⟨Array.replicate minimumMemorySize 0⟩

def Memory.ofSize (size : Nat) : Except Fault Memory :=
  if size < minimumMemorySize then .error (.memoryTooSmall size)
  else .ok ⟨Array.replicate size 0⟩

def Memory.peek? (m : Memory) (address : Nat) : Option UInt8 := m.cells[address]?

def Memory.read (m : Memory) (address : Nat) : Except Fault UInt8 :=
  match m.peek? address with
  | some byte => .ok byte
  | none => .error (.memoryOutOfBounds address m.size)

theorem Memory.lt_size_of_read {m : Memory} {address : Nat} {byte : UInt8}
    (h : m.read address = .ok byte) : address < m.size := by
  cases found : m.cells[address]? with
  | none => simp [read, peek?, found] at h
  | some byte => exact (Array.getElem?_eq_some_iff.mp found).1

def Memory.write (m : Memory) (address : Nat) (value : UInt8) : Except Fault Unit × Memory :=
  if h : address < m.cells.size then (.ok (), ⟨m.cells.set address value h⟩)
  else (.error (.memoryOutOfBounds address m.size), m)

/-- Places an image at the front. The cells behind it keep what they held. -/
def Memory.load (m : Memory) (image : Image) : Except Fault Unit × Memory :=
  if m.size < image.length then (.error (.programTooLarge image.length m.size), m)
  else (.ok (), ⟨image.toArray ++ m.cells.extract image.length m.cells.size⟩)

theorem Memory.ofSize_of_le {size : Nat} (enough : minimumMemorySize ≤ size) :
    Memory.ofSize size = .ok ⟨.replicate size 0⟩ := if_neg (Nat.not_lt_of_le enough)

section Access

variable {m : Memory} {address : Nat}

theorem Memory.peek?_of_le (outside : m.size ≤ address) : m.peek? address = none :=
  Array.getElem?_eq_none outside

theorem Memory.read_of_peek? {byte : UInt8} (h : m.peek? address = some byte) :
    m.read address = .ok byte := by
  simp only [read, h]

theorem Memory.read_of_le (outside : m.size ≤ address) :
    m.read address = .error (.memoryOutOfBounds address m.size) := by
  simp only [read, peek?_of_le outside]

theorem Memory.write_of_lt (value : UInt8) (inside : address < m.size) :
    m.write address value = (.ok (), ⟨m.cells.set address value inside⟩) := dif_pos inside

theorem Memory.write_of_le (value : UInt8) (outside : m.size ≤ address) :
    m.write address value = (.error (.memoryOutOfBounds address m.size), m) :=
  dif_neg (Nat.not_lt_of_le outside)

theorem Memory.load_of_le {image : Image} (fits : image.length ≤ m.size) :
    m.load image = (.ok (), ⟨image.toArray ++ m.cells.extract image.length m.cells.size⟩) :=
  if_neg (Nat.not_lt_of_le fits)

theorem Memory.load_of_lt {image : Image} (tooLarge : m.size < image.length) :
    m.load image = (.error (.programTooLarge image.length m.size), m) := if_pos tooLarge

theorem Memory.keeps_write (m : Memory) (address : Nat) (value : UInt8) :
    Keeps m (m.write address value) := by
  intro fault failed
  by_cases inside : address < m.size
  · rw [write_of_lt value inside] at failed
    cases failed
  · rw [write_of_le value (Nat.le_of_not_lt inside)]

theorem Memory.keeps_load (m : Memory) (image : Image) : Keeps m (m.load image) := by
  intro fault failed
  by_cases fits : image.length ≤ m.size
  · rw [load_of_le fits] at failed
    cases failed
  · rw [load_of_lt (Nat.lt_of_not_le fits)]

theorem Memory.size_write (m : Memory) (address : Nat) (value : UInt8) :
    (m.write address value).2.size = m.size := by
  rw [write]
  split
  · rename_i inside
    exact Array.size_set inside
  · rfl

theorem Memory.size_load (m : Memory) (image : Image) : (m.load image).2.size = m.size := by
  rw [load]
  split
  · rfl
  · rename_i fits
    simp only [size, Array.size_append, List.size_toArray, Array.size_extract] at fits ⊢
    omega

end Access

end LS8
