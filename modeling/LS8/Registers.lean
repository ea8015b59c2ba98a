import LS8.InPlace

/-! The register file: eight byte slots, addressed by a byte that may be out of range. -/

namespace LS8

def registerCount : Nat := 8

/-- The slot set aside for the interrupt mask. Like the two below it behaves as any other slot. -/
def interruptMask : UInt8 := 5

def interruptStatus : UInt8 := 6

def stackPointer : UInt8 := 7

@[ext] structure Registers where
  slots : Vector UInt8 registerCount
deriving DecidableEq

def Registers.zero : Registers := ⟨Vector.replicate registerCount 0⟩

def Registers.toList (r : Registers) : List UInt8 := r.slots.toList

def Registers.read (r : Registers) (index : UInt8) : Except Fault UInt8 :=
  if h : index.toNat < registerCount then .ok r.slots[index.toNat]
  else .error (.registerOutOfBounds index)

def Registers.write (r : Registers) (index value : UInt8) : Except Fault Unit × Registers :=
  if h : index.toNat < registerCount then (.ok (), ⟨r.slots.set index.toNat value h⟩)
  else (.error (.registerOutOfBounds index), r)

theorem Registers.keeps_write (r : Registers) (index value : UInt8) :
    Keeps r (r.write index value) := by
  intro fault failed
  rw [write] at failed ⊢
  split at failed
  · cases failed
  · rename_i outside
    rw [dif_neg outside]

end LS8
