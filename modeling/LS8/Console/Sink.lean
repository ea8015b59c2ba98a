/-! Where printed bytes go. A sink may have room for a limited number of bytes; of an offer that
does not fit it keeps the front part, and from then on it is full. -/

namespace LS8

structure Sink where
  /-- How many more bytes are accepted, or `none` if there is no limit. -/
  room : Option Nat
  accepted : Array UInt8
deriving DecidableEq

def Sink.unlimited : Sink := ⟨none, #[]⟩

def Sink.ofRoom (room : Nat) : Sink := ⟨some room, #[]⟩

/-- The bytes are accepted to the last one. -/
def Sink.Fits (s : Sink) (bytes : List UInt8) : Prop := ∀ room ∈ s.room, bytes.length ≤ room

instance (s : Sink) (bytes : List UInt8) : Decidable (s.Fits bytes) :=
  inferInstanceAs (Decidable (∀ room ∈ s.room, bytes.length ≤ room))

def Sink.offer (s : Sink) (bytes : List UInt8) : Sink :=
  match s.room with
  | none => { s with accepted := s.accepted ++ bytes }
  | some room => ⟨some (room - bytes.length), s.accepted ++ bytes.take room⟩

theorem Sink.fits_of_unlimited {s : Sink} (unlimited : s.room = none) (bytes : List UInt8) :
    s.Fits bytes := by
  intro room h
  simp [unlimited] at h

theorem Sink.fits_iff_length_le {s : Sink} {room : Nat} (limited : s.room = some room)
    (bytes : List UInt8) : s.Fits bytes ↔ bytes.length ≤ room := by
  simp [Fits, limited]

@[simp] theorem Sink.fits_nil (s : Sink) : s.Fits [] := by
  intro room _
  exact Nat.zero_le room

@[simp] theorem Sink.offer_nil (s : Sink) : s.offer [] = s := by
  obtain ⟨_ | room, accepted⟩ := s <;> simp [offer]

theorem Sink.offer_append (s : Sink) (front rest : List UInt8) :
    s.offer (front ++ rest) = (s.offer front).offer rest := by
  obtain ⟨_ | room, accepted⟩ := s
  · simp only [offer, Sink.mk.injEq, true_and]
    exact Array.toList_inj.mp (by simp)
  · simp only [offer, List.length_append, Nat.sub_sub, List.take_append, Sink.mk.injEq, true_and]
    exact Array.toList_inj.mp (by simp)

/-- A sink has room for two offers together just if it has room for one after the other. -/
theorem Sink.fits_append {s : Sink} {front rest : List UInt8} :
    s.Fits (front ++ rest) ↔ s.Fits front ∧ (s.offer front).Fits rest := by
  obtain ⟨_ | room, accepted⟩ := s
  · simp [Fits, offer]
  · simp only [Fits, offer, Option.mem_def, Option.some.injEq, forall_eq', List.length_append]
    omega

theorem Sink.accepted_offer_of_fits {s : Sink} {bytes : List UInt8} (h : s.Fits bytes) :
    (s.offer bytes).accepted.toList = s.accepted.toList ++ bytes := by
  obtain ⟨_ | room, accepted⟩ := s
  · simp [offer]
  · have hlen : bytes.length ≤ room := by simpa [Fits] using h
    simp [offer, List.take_of_length_le hlen]

/-- Of an offer that does not fit a proper front part is accepted. -/
theorem Sink.accepted_offer_of_not_fits {s : Sink} {bytes : List UInt8} (h : ¬ s.Fits bytes) :
    ∃ front, front <+: bytes ∧ front.length < bytes.length ∧
      (s.offer bytes).accepted.toList = s.accepted.toList ++ front := by
  obtain ⟨_ | room, accepted⟩ := s
  · exact (h (fits_of_unlimited rfl bytes)).elim
  · have hlen : room < bytes.length := by simpa [Fits] using h
    refine ⟨bytes.take room, List.take_prefix room bytes, ?_, by simp [offer]⟩
    rw [List.length_take]
    omega

theorem Sink.accepted_offer_ofRoom (room : Nat) (bytes : List UInt8) :
    ((Sink.ofRoom room).offer bytes).accepted.toList = bytes.take room := by
  simp [ofRoom, offer]

/-- The accepted bytes as text, one character for each byte. -/
def Sink.text (s : Sink) : String := String.ofList (s.accepted.toList.map Char.ofUInt8)

end LS8
