import LS8.Fault

/-! Computations that change a state as they go. One that fails stops where it is, and what it has
changed until then stays changed. So it has to be proved of each call that it leaves nothing behind
when it fails. -/

namespace LS8

abbrev InPlace (σ α : Type) := ExceptT Fault (StateM σ) α

/-- What comes of a computation that begins in this state, and the state it leaves. -/
def inPlace {σ α : Type} (s : σ) (x : InPlace σ α) : Except Fault α × σ := x.run.run s

/-- A call that returns the state as it has left it, also when it fails. -/
def changing {σ α : Type} (call : σ → Except Fault α × σ) : InPlace σ α :=
  ExceptT.mk (modifyGet call)

def reading {σ α : Type} (call : σ → Except Fault α) : InPlace σ α :=
  changing fun s => (call s, s)

/-- A call that fails has left the state as it was before. -/
def Keeps {σ α : Type} (before : σ) (left : Except Fault α × σ) : Prop :=
  ∀ fault, left.1 = .error fault → left.2 = before

/-- The state that a call leaves, if it succeeds. -/
def afterSuccess {σ : Type} : Except Fault Unit × σ → Except Fault σ
  | (.ok (), s) => .ok s
  | (.error fault, _) => .error fault

section

variable {σ α β : Type} {s t : σ}

theorem afterSuccess_eq_ok_iff {left : Except Fault Unit × σ} :
    afterSuccess left = .ok s ↔ left = (.ok (), s) := by
  obtain ⟨_ | _, t⟩ := left <;> simp [afterSuccess]

theorem Keeps.eq_of_error {left : Except Fault Unit × σ} {fault : Fault} (keeps : Keeps s left)
    (h : afterSuccess left = .error fault) : left = (.error fault, s) := by
  obtain ⟨_ | _, t⟩ := left
  · cases h
    rw [← keeps fault rfl]
  · cases h

@[simp] theorem inPlace_pure (a : α) : inPlace s (pure a) = (.ok a, s) := rfl

@[simp] theorem inPlace_get : inPlace s (get : InPlace σ σ) = (.ok s, s) := rfl

@[simp] theorem inPlace_modify (f : σ → σ) :
    inPlace s (modify f : InPlace σ Unit) = (.ok (), f s) := rfl

@[simp] theorem inPlace_changing (call : σ → Except Fault α × σ) :
    inPlace s (changing call) = call s := rfl

@[simp] theorem inPlace_reading (call : σ → Except Fault α) :
    inPlace s (reading call) = (call s, s) := rfl

@[simp] theorem inPlace_bind (x : InPlace σ α) (f : α → InPlace σ β) :
    inPlace s (x >>= f) =
      match inPlace s x with
      | (.ok a, t) => inPlace t (f a)
      | (.error fault, t) => (.error fault, t) := by
  simp only [inPlace, ExceptT.run_bind, StateT.run_bind]
  generalize x.run.run s = left
  obtain ⟨_ | a, t⟩ := left <;> rfl

/-- What is read beforehand leaves nothing behind. -/
theorem Keeps.of_reading {call : σ → Except Fault α} {f : α → InPlace σ β}
    (keeps : ∀ a, Keeps s (inPlace s (f a))) : Keeps s (inPlace s (reading call >>= f)) := by
  simp only [inPlace_bind, inPlace_reading]
  cases call s with
  | error fault => exact fun _ _ => rfl
  | ok a => exact keeps a

end

end LS8
