import LS8.Arithmetic

/-! The register file through the indices that exist. An index byte either names one of the eight
slots, and then access succeeds, or it is reported. -/

namespace LS8

/-- The index of a slot that exists. -/
abbrev Register := Fin registerCount

def Register.byte (i : Register) : UInt8 := UInt8.ofNat i.val

def Registers.get (r : Registers) (i : Register) : UInt8 := r.slots[i]

def Registers.set (r : Registers) (i : Register) (value : UInt8) : Registers :=
  ⟨r.slots.set i.val value i.isLt⟩

theorem Register.toNat_byte (i : Register) : i.byte.toNat = i.val :=
  UInt8.toNat_ofNat_of_lt' (Nat.lt_trans i.isLt (by decide))

theorem Register.byte_mk {index : UInt8} (h : index.toNat < registerCount) :
    Register.byte ⟨index.toNat, h⟩ = index := by
  simp [Register.byte]

theorem Register.byte_inj {i j : Register} : i.byte = j.byte ↔ i = j := by
  refine ⟨fun h => Fin.ext ?_, congrArg Register.byte⟩
  rw [← i.toNat_byte, h, j.toNat_byte]

theorem Register.exists_byte {index : UInt8} (h : ¬ registerCount ≤ index.toNat) :
    ∃ i : Register, i.byte = index :=
  ⟨_, byte_mk (Nat.lt_of_not_le h)⟩

theorem Register.not_le_toNat_byte (i : Register) : ¬ registerCount ≤ i.byte.toNat := by
  rw [i.toNat_byte]
  exact Nat.not_le_of_lt i.isLt

theorem Registers.ext_get {r s : Registers} (h : ∀ i, r.get i = s.get i) : r = s :=
  Registers.ext (Vector.ext fun i lt => h ⟨i, lt⟩)

theorem Registers.get_set (r : Registers) (i j : Register) (value : UInt8) :
    (r.set i value).get j = if i = j then value else r.get j := by
  simp only [get, set, Fin.getElem_fin, Vector.getElem_set, Fin.ext_iff]

theorem Registers.get_set_of_ne {i j : Register} (h : i ≠ j) (r : Registers) (value : UInt8) :
    (r.set i value).get j = r.get j := by
  rw [get_set, if_neg h]

theorem Registers.set_comm {i j : Register} (h : i ≠ j) (r : Registers) (x y : UInt8) :
    (r.set i x).set j y = (r.set j y).set i x := by
  refine ext_get fun n => ?_
  simp only [get_set]
  by_cases hj : j = n
  · have hi : i ≠ n := fun hi => h (hi.trans hj.symm)
    simp only [hj, hi, if_true, if_false]
  · simp only [hj, if_false]

theorem Registers.read_byte (r : Registers) (i : Register) : r.read i.byte = .ok (r.get i) := by
  simp only [read, i.toNat_byte]
  exact dif_pos i.isLt

theorem Registers.write_byte (r : Registers) (i : Register) (value : UInt8) :
    r.write i.byte value = (.ok (), r.set i value) := by
  simp only [write, i.toNat_byte]
  exact dif_pos i.isLt

theorem Registers.read_of_le {r : Registers} {index : UInt8} (h : registerCount ≤ index.toNat) :
    r.read index = .error (.registerOutOfBounds index) := by
  rw [read, dif_neg (by omega)]

theorem Registers.write_of_le {r : Registers} {index : UInt8} (value : UInt8)
    (h : registerCount ≤ index.toNat) :
    r.write index value = (.error (.registerOutOfBounds index), r) := by
  rw [write, dif_neg (by omega)]

/-- An arithmetic operation on two slots stores its result in the first. -/
theorem Registers.apply_byte {operation : Operation} {combine : UInt8 → UInt8 → UInt8}
    (h : operation.combine? = some combine) (r : Registers) (target source : Register) :
    r.apply operation target.byte source.byte =
      (.ok (), r.set target (combine (r.get target) (r.get source))) := by
  simp only [apply, inPlace_bind, inPlace_reading, read_byte, h, inPlace_changing, write_byte]

theorem Registers.apply_of_target_le {r : Registers} {target : UInt8} (operation : Operation)
    (source : UInt8) (h : registerCount ≤ target.toNat) :
    r.apply operation target source = (.error (.registerOutOfBounds target), r) := by
  simp only [apply, inPlace_bind, inPlace_reading, read_of_le h]

theorem Registers.apply_of_source_le {r : Registers} {source : UInt8} (operation : Operation)
    (target : Register) (h : registerCount ≤ source.toNat) :
    r.apply operation target.byte source = (.error (.registerOutOfBounds source), r) := by
  simp only [apply, inPlace_bind, inPlace_reading, read_byte, read_of_le h]

theorem Registers.apply_of_none {operation : Operation} (h : operation.combine? = none)
    (r : Registers) (target source : Register) :
    r.apply operation target.byte source.byte = (.error (.unsupportedOperation operation), r) := by
  simp only [apply, inPlace_bind, inPlace_reading, read_byte, h]
  rfl

theorem Operation.combine?_eq_none_iff {operation : Operation} :
    operation.combine? = none ↔ operation ≠ .add ∧ operation ≠ .multiply := by
  cases operation <;> simp [combine?]

/-- All that an operation on two index bytes comes to. Which of the four it is does not depend on what the
registers hold. -/
inductive Registers.Applied (operation : Operation) (target source : UInt8) : Prop
  | noTarget (out : registerCount ≤ target.toNat)
      (h : ∀ r : Registers,
        r.apply operation target source = (.error (.registerOutOfBounds target), r))
  | noSource (i : Register) (target_eq : i.byte = target) (out : registerCount ≤ source.toNat)
      (h : ∀ r : Registers,
        r.apply operation target source = (.error (.registerOutOfBounds source), r))
  | noResult (i j : Register) (target_eq : i.byte = target) (source_eq : j.byte = source)
      (unsupported : operation.combine? = none)
      (h : ∀ r : Registers,
        r.apply operation target source = (.error (.unsupportedOperation operation), r))
  | stored (i j : Register) (target_eq : i.byte = target) (source_eq : j.byte = source)
      {combine : UInt8 → UInt8 → UInt8} (supported : operation.combine? = some combine)
      (h : ∀ r : Registers,
        r.apply operation target source = (.ok (), r.set i (combine (r.get i) (r.get j))))

theorem Registers.applied (operation : Operation) (target source : UInt8) :
    Applied operation target source := by
  by_cases noTarget : registerCount ≤ target.toNat
  · exact .noTarget noTarget fun _ => apply_of_target_le operation source noTarget
  obtain ⟨i, rfl⟩ := Register.exists_byte noTarget
  by_cases noSource : registerCount ≤ source.toNat
  · exact .noSource i rfl noSource fun _ => apply_of_source_le operation i noSource
  obtain ⟨j, rfl⟩ := Register.exists_byte noSource
  cases hc : operation.combine? with
  | none => exact .noResult i j rfl rfl hc fun r => apply_of_none hc r i j
  | some combine => exact .stored i j rfl rfl hc fun r => apply_byte hc r i j

/-- What the arithmetic unit can be asked for. Neither the operation need be arithmetic nor the registers
exist. -/
structure ArithmeticCall where
  operation : Operation
  target : UInt8
  source : UInt8

end LS8
