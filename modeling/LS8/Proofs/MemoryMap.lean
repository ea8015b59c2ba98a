import LS8.Proofs.Commands

/-! Memory as a map from addresses to bytes. Some accesses put bytes at addresses, and a cell holds the
byte that was put there last. An access that is refused puts nothing anywhere. -/

namespace LS8

inductive Access where
  | read (address : Nat)
  | peek (address : Nat)
  | write (address : Nat) (value : UInt8)
  | load (image : Image)

/-- The memory after an access, which may have been refused. -/
def Memory.access (m : Memory) : Access → Memory
  | .read _ | .peek _ => m
  | .write address value => (m.write address value).2
  | .load image => (m.load image).2

def Memory.accessAll (m : Memory) (accesses : List Access) : Memory := accesses.foldl access m

def Memory.Refuses (m : Memory) : Access → Prop
  | .read address => ∃ fault, m.read address = .error fault
  | .peek address => m.peek? address = none
  | .write address value => ∃ fault, (m.write address value).1 = .error fault
  | .load image => ∃ fault, (m.load image).1 = .error fault

/-- The byte that an access puts at an address in a memory of the given size, if it puts one there. -/
def Access.puts? (size address : Nat) : Access → Option UInt8
  | .read _ | .peek _ => none
  | .write target value => if target = address ∧ target < size then some value else none
  | .load image => if image.length ≤ size then image[address]? else none

/-- The byte that was last put at an address, or zero if there is none. -/
def lastPut (size address : Nat) (accesses : List Access) : UInt8 :=
  (accesses.filterMap (Access.puts? size address)).getLast?.getD 0

section Single

variable {m : Memory} {address : Nat}

theorem Memory.size_access (m : Memory) (access : Access) : (m.access access).size = m.size := by
  cases access with
  | read | peek => rfl
  | write address value => exact m.size_write address value
  | load image => exact m.size_load image

theorem Memory.access_of_refused {access : Access} (refused : m.Refuses access) :
    m.access access = m := by
  cases access with
  | read | peek => rfl
  | write address value =>
    obtain ⟨fault, h⟩ := refused
    exact m.keeps_write address value fault h
  | load image =>
    obtain ⟨fault, h⟩ := refused
    exact m.keeps_load image fault h

theorem Memory.peek?_set (m : Memory) {target : Nat} (value : UInt8) (inside : target < m.size) :
    (Memory.mk (m.cells.set target value inside)).peek? address =
      if target = address then some value else m.peek? address :=
  Array.getElem?_set inside

/-- An image takes the place of as many cells as it has bytes, and the cells behind it stay. -/
theorem Memory.peek?_loaded (m : Memory) (image : Image) :
    (Memory.mk (image.toArray ++ m.cells.extract image.length m.cells.size)).peek? address =
      image[address]?.or (m.peek? address) := by
  rw [peek?, peek?, Array.getElem?_append, List.size_toArray]
  by_cases covered : address < image.length
  · rw [if_pos covered, List.getElem?_toArray, List.getElem?_eq_getElem covered, Option.some_or]
  · have behind : image.length + (address - image.length) = address := by omega
    rw [if_neg covered, List.getElem?_eq_none (Nat.le_of_not_lt covered), Option.none_or,
      Array.getElem?_extract, Nat.min_self, behind]
    by_cases inside : address < m.cells.size
    · rw [if_pos (by omega)]
    · rw [if_neg (by omega), Array.getElem?_eq_none (Nat.le_of_not_lt inside)]

theorem Memory.peek?_access (m : Memory) (access : Access) (address : Nat) :
    (m.access access).peek? address = (access.puts? m.size address).or (m.peek? address) := by
  cases access with
  | read | peek => rfl
  | write target value =>
    by_cases inside : target < m.size
    · simp only [Memory.access, write_of_lt value inside, peek?_set, Access.puts?, inside, and_true]
      by_cases same : target = address
      · rw [if_pos same, if_pos same, Option.some_or]
      · rw [if_neg same, if_neg same, Option.none_or]
    · simp only [Memory.access, write_of_le value (Nat.le_of_not_lt inside), Access.puts?, inside,
        and_false, if_false, Option.none_or]
  | load image =>
    by_cases fits : image.length ≤ m.size
    · simp only [Memory.access, load_of_le fits, peek?_loaded, Access.puts?, fits, if_true]
    · simp only [Memory.access, load_of_lt (Nat.lt_of_not_le fits), Access.puts?, fits, if_false,
        Option.none_or]

end Single

theorem Memory.size_accessAll (m : Memory) (accesses : List Access) :
    (m.accessAll accesses).size = m.size :=
  List.foldlRecOn (motive := fun n => n.size = m.size) accesses access rfl fun n same access _ =>
    (n.size_access access).trans same

theorem Memory.peek?_accessAll (m : Memory) (accesses : List Access) (address : Nat) :
    (m.accessAll accesses).peek? address =
      (accesses.filterMap (Access.puts? m.size address)).getLast?.or (m.peek? address) := by
  induction accesses generalizing m with
  | nil => rfl
  | cons access accesses ih =>
    have step := ih (m.access access)
    rw [m.size_access, m.peek?_access] at step
    rw [accessAll, List.foldl_cons, ← accessAll, step, List.filterMap_cons]
    cases access.puts? m.size address with
    | none => rw [Option.none_or]
    | some byte =>
      simp only [Option.some_or, List.getLast?_cons]
      cases (accesses.filterMap (Access.puts? m.size address)).getLast? <;> rfl

theorem Memory.peek?_zeros {size address : Nat} (inside : address < size) :
    (Memory.mk (.replicate size 0)).peek? address = some 0 := by
  rw [peek?, Array.getElem?_replicate, if_pos inside]

theorem Machine.memory_load (m : Machine) (image : Image) (c : Console) :
    (m.load image c).machine.memory = m.memory.access (.load image) := by
  rw [machine_load, Memory.access]

/-- The memory answers as a map does that has a byte for each address below `size`. -/
structure Memory.AnswersAs (m : Memory) (size : Nat) (cells : Nat → UInt8) : Prop where
  size_eq : m.size = size
  read_iff : ∀ address, (∃ byte, m.read address = .ok byte) ↔ address < size
  peek_iff : ∀ address, (m.peek? address).isSome ↔ address < size
  read_eq : ∀ address < size, m.read address = .ok (cells address)
  peek_eq : ∀ address < size, m.peek? address = some (cells address)
  read_error : ∀ address, size ≤ address →
    m.read address = .error (.memoryOutOfBounds address size)
  write_iff : ∀ address value, (∃ next, m.write address value = (.ok (), next)) ↔ address < size
  write_error : ∀ address value, size ≤ address →
    m.write address value = (.error (.memoryOutOfBounds address size), m)
  load_iff : ∀ image : Image, (∃ next, m.load image = (.ok (), next)) ↔ image.length ≤ size
  load_error : ∀ image : Image, size < image.length →
    m.load image = (.error (.programTooLarge image.length size), m)
  refused : ∀ access, m.Refuses access → m.access access = m

theorem Memory.answersAs_of_peek? {m : Memory} {cells : Nat → UInt8}
    (held : ∀ address < m.size, m.peek? address = some (cells address)) :
    m.AnswersAs m.size cells where
  size_eq := rfl
  read_iff address := by
    refine ⟨fun ⟨byte, h⟩ => lt_size_of_read h, fun inside => ⟨_, read_of_peek? (held _ inside)⟩⟩
  peek_iff address := by
    refine ⟨fun h => Nat.lt_of_not_le fun outside => ?_, fun inside => ?_⟩
    · rw [peek?_of_le outside] at h
      cases h
    · rw [held address inside]
      rfl
  read_eq address inside := read_of_peek? (held address inside)
  peek_eq := held
  read_error address outside := read_of_le outside
  write_iff address value := by
    refine ⟨fun ⟨next, h⟩ => Nat.lt_of_not_le fun outside => ?_, fun inside => ?_⟩
    · cases h.symm.trans (write_of_le value outside)
    · exact ⟨_, write_of_lt value inside⟩
  write_error address value outside := write_of_le value outside
  load_iff image := by
    refine ⟨fun ⟨next, h⟩ => Nat.le_of_not_lt fun tooLarge => ?_, fun fits => ?_⟩
    · cases h.symm.trans (load_of_lt tooLarge)
    · exact ⟨_, load_of_le fits⟩
  load_error image tooLarge := load_of_lt tooLarge
  refused _ h := access_of_refused h

/-- A memory that is made with enough cells answers, whatever the accesses were until then, as the map
that holds at each address what was put there last. An image that is loaded over a longer one leaves
what is behind it. -/
theorem Memory.holds_last_put {size : Nat} (enough : minimumMemorySize ≤ size) :
    ∃ start, Memory.ofSize size = .ok start ∧ ∀ accesses : List Access,
      (start.accessAll accesses).AnswersAs size (lastPut size · accesses) ∧
      ∀ (m : Machine) (long short : Image) (c d : Console),
        m.memory = start.accessAll accesses → short.length ≤ long.length → long.length ≤ size →
        ∀ address < long.length,
          ((m.load long c).machine.load short d).machine.memory.peek? address =
            if address < short.length then short[address]? else long[address]? := by
  have hz : (Memory.mk (.replicate size 0)).size = size := Array.size_replicate
  refine ⟨_, ofSize_of_le enough, fun accesses => ⟨?_, ?_⟩⟩
  · have hs := (size_accessAll ⟨.replicate size 0⟩ accesses).trans hz
    have answers := @answersAs_of_peek? (accessAll ⟨.replicate size 0⟩ accesses)
      (lastPut size · accesses) fun address inside => by
        rw [hs] at inside
        rw [peek?_accessAll, hz, peek?_zeros inside, lastPut]
        cases (accesses.filterMap (Access.puts? size address)).getLast? <;> rfl
    rwa [hs] at answers
  · intro m long short c d hm shorter fits address covered
    have hs : m.memory.size = size := by rw [hm, size_accessAll, hz]
    have shortFits : short.length ≤ size := Nat.le_trans shorter fits
    rw [Machine.memory_load, peek?_access, Machine.memory_load, size_access, peek?_access, hs]
    simp only [Access.puts?, fits, shortFits, if_true]
    rw [List.getElem?_eq_getElem covered, Option.some_or]
    by_cases front : address < short.length
    · rw [if_pos front, List.getElem?_eq_getElem front, Option.some_or]
    · rw [if_neg front, List.getElem?_eq_none (Nat.le_of_not_lt front), Option.none_or]

/-- A load, a shorter one over it, writes to the last cell and behind it, and an image that is too
large. -/
theorem Memory.holds_last_put_reloaded :
    let accesses : List Access := [.load [1, 2, 3], .load [7], .write 255 4, .write 256 9,
      .load (List.replicate 257 5), .read 256]
    minimumMemorySize ≤ 256 ∧ ∃ start, Memory.ofSize 256 = .ok start ∧
      let m := start.accessAll accesses
      m.read 0 = .ok 7 ∧ m.read 1 = .ok 2 ∧ m.peek? 255 = some 4 ∧ m.read 3 = .ok 0 ∧
        m.read 256 = .error (.memoryOutOfBounds 256 256) ∧
        m.load (List.replicate 257 5) = (.error (.programTooLarge 257 256), m) := by
  intro accesses
  have length : (List.replicate 257 (5 : UInt8)).length = 257 := List.length_replicate
  obtain ⟨start, made, answers⟩ := holds_last_put (Nat.le_refl 256)
  obtain ⟨h, -⟩ := answers accesses
  refine ⟨Nat.le_refl 256, start, made, ?_, ?_, ?_, ?_, h.read_error 256 (Nat.le_refl 256), ?_⟩
  · exact (h.read_eq 0 (by decide)).trans (by decide +kernel)
  · exact (h.read_eq 1 (by decide)).trans (by decide +kernel)
  · exact (h.peek_eq 255 (by decide)).trans (by decide +kernel)
  · exact (h.read_eq 3 (by decide)).trans (by decide +kernel)
  · have large : 256 < (List.replicate 257 (5 : UInt8)).length := by
      rw [length]
      exact Nat.lt_succ_self 256
    rw [h.load_error _ large, length]

end LS8
