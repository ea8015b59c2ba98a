import LS8.CommandLine.Arguments
import LS8.Proofs.MemorySizes

/-! What the arguments of a call can ask for. The memory size is always one that a memory may have, and the
request for a trace stands apart from everything else. -/

namespace LS8

/-- Settling takes up the value that is pending, if there is one. -/
inductive Reading.Settled (r : Reading) : Reading → Prop
  | nothing : Settled r r
  | size {text : String} {size : Nat} (accepted : parseMemorySize text = .ok size) :
      Settled r { r with memorySize? := some size, pending := .nothing }
  | program (path : String) : Settled r { r with program? := some path, pending := .nothing }

theorem Reading.settled_of_settle {r next : Reading} (h : r.settle = .ok next) : r.Settled next := by
  rw [Reading.settle] at h
  split at h
  · cases h
    exact .nothing
  · cases h
  · split at h
    · cases h
    · split at h
      · rename_i accepted
        cases h
        exact .size accepted
      · cases h
  · split at h
    · cases h
    · cases h
      exact .program _

/-- A size that was read is one that a memory may have. -/
def Reading.Sized (r : Reading) : Prop := ∀ size ∈ r.memorySize?, minimumMemorySize ≤ size

section Sized

variable {r next : Reading} (sized : r.Sized)

include sized

theorem Reading.Sized.settle (h : r.settle = .ok next) : next.Sized := by
  cases settled_of_settle h with
  | nothing | program => exact sized
  | size accepted =>
    intro size hs
    cases hs
    exact (parseMemorySize_eq_ok_iff.mp accepted).2.1

theorem Reading.Sized.takeWord {text : String} (h : r.takeWord text = .ok next) : next.Sized := by
  rw [Reading.takeWord] at h
  split at h
  · cases h
    exact sized
  · split at h
    · cases h
    · obtain ⟨s, hs, h⟩ := eq_ok_of_bind_eq_ok h
      cases h
      exact (sized.settle hs : s.Sized)

theorem Reading.Sized.takeLong {name : String} {value? : Option String}
    (h : r.takeLong name value? = .ok next) : next.Sized := by
  rw [Reading.takeLong.eq_def] at h
  split at h
  · obtain ⟨s, hs, h⟩ := eq_ok_of_bind_eq_ok h
    cases h
    exact (sized.settle hs : s.Sized)
  · rename_i text
    obtain ⟨s, hs, h⟩ := eq_ok_of_bind_eq_ok h
    have pending : Sized { s with pending := .size text } := (sized.settle hs : s.Sized)
    exact pending.settle h
  · obtain ⟨s, hs, h⟩ := eq_ok_of_bind_eq_ok h
    dsimp only at h
    split at h
    · cases h
    · cases h
      exact (sized.settle hs : s.Sized)
  · obtain ⟨s, hs, h⟩ := eq_ok_of_bind_eq_ok h
    cases h
  all_goals cases h

theorem Reading.Sized.take {text : String} (h : r.take text = .ok next) : next.Sized := by
  rw [Reading.take] at h
  split at h
  · exact sized.takeWord h
  · split at h
    · cases h
      exact sized
    · exact sized.takeLong h
    · obtain ⟨s, hs, h⟩ := eq_ok_of_bind_eq_ok h
      cases h
    · cases h
    · exact sized.takeWord h

theorem Reading.Sized.takeAll {arguments : List String}
    (h : arguments.foldlM Reading.take r = .ok next) : next.Sized := by
  induction arguments generalizing r with
  | nil =>
    cases h
    exact sized
  | cons text arguments ih =>
    obtain ⟨s, hs, h⟩ := eq_ok_of_bind_eq_ok h
    exact ih (sized.take hs) h

end Sized

theorem Invocation.minimum_le_memorySize {arguments : List String} {i : Invocation}
    (h : Invocation.ofArguments arguments = .ok i) : minimumMemorySize ≤ i.memorySize := by
  obtain ⟨r, hr, h⟩ := eq_ok_of_bind_eq_ok h
  obtain ⟨s, hs, h⟩ := eq_ok_of_bind_eq_ok h
  have start : Reading.start.Sized := nofun
  have sized : s.Sized := (start.takeAll hr).settle hs
  split at h
  · cases h
    cases hsize : s.memorySize? with
    | none => exact Nat.le_refl _
    | some size => exact sized size hsize
  · cases h

/-- The same reading, but with a trace asked for. -/
def Reading.traced (r : Reading) : Reading := { r with trace := true }

theorem Reading.settle_traced (r : Reading) : r.traced.settle = r.settle.map Reading.traced := by
  obtain ⟨program?, memorySize?, trace, pending, wordsOnly⟩ := r
  cases pending with
  | nothing | sizeExpected => rfl
  | size text =>
    by_cases repeated : memorySize?.isSome
    · simp [settle, traced, repeated, Except.map]
    · cases accepted : parseMemorySize text <;>
        simp [settle, traced, repeated, accepted, Except.map]
  | program path => by_cases missing : path = "" <;> simp [settle, traced, missing, Except.map]

theorem Reading.takeWord_traced (r : Reading) (text : String) :
    r.traced.takeWord text = (r.takeWord text).map Reading.traced := by
  have hp : r.traced.pending = r.pending := rfl
  have hw : r.traced.wordsOnly = r.wordsOnly := rfl
  have hh : r.traced.hasProgram = r.hasProgram := rfl
  rw [takeWord, takeWord, hp, hw, hh]
  split
  · rfl
  · split
    · rfl
    · rw [settle_traced]
      cases r.settle <;> rfl

theorem Reading.takeLong_traced (r : Reading) {name : String} {value? : Option String}
    (other : ¬ (name = "trace" ∧ value? = none)) :
    r.traced.takeLong name value? = (r.takeLong name value?).map Reading.traced := by
  rw [takeLong.eq_def, takeLong.eq_def]
  split
  · rw [settle_traced]
    cases r.settle <;> rfl
  · rename_i text
    rw [settle_traced]
    cases r.settle with
    | error => rfl
    | ok s => exact settle_traced { s with pending := .size text }
  · exact (other ⟨rfl, rfl⟩).elim
  · rw [settle_traced]
    cases r.settle <;> rfl
  all_goals rfl

theorem Argument.eq_of_long {text name : String} (h : Argument.ofString text = .long name none) :
    text = "--" ++ name := by
  rw [ofString] at h
  split at h
  · cases h
  · rename_i rest _ front
    split at h
    · rename_i bare
      cases h
      refine String.toList_injective ?_
      have whole := List.takeWhile_append_dropWhile (p := fun c => decide (c ≠ '=')) (l := rest)
      rw [bare, List.append_nil] at whole
      simp only [front, String.toList_append, String.toList_ofList, whole]
      rfl
    · cases h
  · cases h
  · cases h

theorem Reading.take_traced (r : Reading) {text : String} (other : r.wordsOnly ∨ text ≠ "--trace") :
    r.traced.take text = (r.take text).map Reading.traced := by
  have hw : r.traced.wordsOnly = r.wordsOnly := rfl
  rw [take, take, hw]
  split
  · exact r.takeWord_traced text
  · rename_i options
    have named : text ≠ "--trace" := other.resolve_left options
    split
    · rfl
    · rename_i name value? h
      refine r.takeLong_traced ?_
      rintro ⟨rfl, rfl⟩
      exact named (Argument.eq_of_long h)
    · rw [settle_traced]
      cases r.settle <;> rfl
    · rfl
    · exact r.takeWord_traced _

theorem Reading.wordsOnly_of_takeWord {r next : Reading} {text : String}
    (h : r.takeWord text = .ok next) : next.wordsOnly = r.wordsOnly := by
  rw [takeWord] at h
  split at h
  · cases h
    rfl
  · split at h
    · cases h
    · obtain ⟨s, hs, h⟩ := eq_ok_of_bind_eq_ok h
      cases h
      cases settled_of_settle hs <;> rfl

/-- Behind a separator nothing asks for a trace. -/
theorem Reading.takeAll_traced (r : Reading) {arguments : List String}
    (unasked : r.wordsOnly ∨ "--trace" ∉ arguments.takeWhile (· ≠ "--")) :
    arguments.foldlM Reading.take r.traced =
      (arguments.foldlM Reading.take r).map Reading.traced := by
  induction arguments generalizing r with
  | nil => rfl
  | cons text arguments ih =>
    have other : r.wordsOnly ∨ text ≠ "--trace" := by
      refine unasked.imp_right ?_
      rintro unasked rfl
      exact unasked List.mem_cons_self
    rw [List.foldlM_cons, List.foldlM_cons, r.take_traced other]
    cases taken : r.take text with
    | error => rfl
    | ok next =>
      refine ih next ?_
      cases words : r.wordsOnly with
      | true =>
        rw [take, if_pos words] at taken
        exact .inl ((wordsOnly_of_takeWord taken).trans words)
      | false =>
        -- the hypothesis is about the options alone, which end at the first separator
        by_cases separator : text = "--"
        · rw [take, words, separator] at taken
          cases taken
          exact .inl rfl
        · have unasked := unasked.resolve_left (Bool.not_eq_true _ ▸ words)
          rw [List.takeWhile_cons_of_pos (by simpa using separator)] at unasked
          exact .inr (mt (List.mem_cons_of_mem text) unasked)

def Invocation.withTrace (i : Invocation) (trace : Bool) : Invocation := { i with trace }

theorem Reading.finish_traced (r : Reading) :
    r.traced.finish = r.finish.map (·.withTrace true) := by
  rw [finish, finish, settle_traced]
  cases r.settle with
  | error => rfl
  | ok s =>
    obtain ⟨program?, memorySize?, trace, pending, wordsOnly⟩ := s
    cases program? <;> rfl

/-- A request for a trace in front of arguments that make none adds just that to what they ask for. -/
theorem Invocation.ofArguments_traced {arguments : List String}
    (unasked : "--trace" ∉ arguments.takeWhile (· ≠ "--")) :
    Invocation.ofArguments ("--trace" :: arguments) =
      (Invocation.ofArguments arguments).map (·.withTrace true) := by
  have first : Reading.start.take "--trace" = .ok Reading.start.traced := by decide
  have rest := Reading.start.takeAll_traced (.inr unasked)
  calc Invocation.ofArguments ("--trace" :: arguments)
      = ((arguments.foldlM Reading.take Reading.start.traced) >>= Reading.finish) := by
        rw [ofArguments, List.foldlM_cons, first]
        rfl
    _ = ((arguments.foldlM Reading.take Reading.start) >>= fun r => r.traced.finish) := by
        rw [rest]
        cases arguments.foldlM Reading.take Reading.start <;> rfl
    _ = (Invocation.ofArguments arguments).map (·.withTrace true) := by
        rw [ofArguments]
        cases arguments.foldlM Reading.take Reading.start with
        | error => rfl
        | ok r => exact r.finish_traced

theorem Argument.ofString_memorySize (text : String) :
    Argument.ofString ("--memory-size=" ++ text) = .long "memory-size" (some text) := by
  have front : ("--memory-size=" ++ text).toList =
      '-' :: '-' :: ("memory-size".toList ++ '=' :: text.toList) := by
    rw [String.toList_append]
    rfl
  rw [ofString, front]
  show Argument.long (String.ofList _) (some (String.ofList _)) = _
  rw [String.ofList_toList]
  rfl

/-- Each size that is accepted can be asked for, with any program and with a trace or without one. -/
theorem Invocation.ofArguments_sized {text path : String} {size : Nat}
    (accepted : parseMemorySize text = .ok size) (named : path ≠ "") (trace : Bool) :
    Invocation.ofArguments
        (["--memory-size=" ++ text] ++ (if trace then ["--trace"] else []) ++ ["--", path]) =
      .ok ⟨path, size, trace⟩ := by
  have sized : Reading.start.take ("--memory-size=" ++ text) =
      .ok ⟨none, some size, false, .nothing, false⟩ := by
    have settled : Reading.settle ⟨none, none, false, .size text, false⟩ =
        .ok ⟨none, some size, false, .nothing, false⟩ := by
      simp [Reading.settle, accepted]
    rw [Reading.take, Argument.ofString_memorySize]
    exact settled
  have finished : Reading.finish ⟨none, some size, trace, .program path, true⟩ =
      .ok ⟨path, size, trace⟩ := by
    have settled : Reading.settle ⟨none, some size, trace, .program path, true⟩ =
        .ok ⟨some path, some size, trace, .nothing, true⟩ := by
      simp [Reading.settle, named]
    rw [Reading.finish, settled]
    rfl
  rw [ofArguments, List.append_assoc, List.singleton_append, List.foldlM_cons, sized]
  cases trace with
  | false => exact finished
  | true => exact finished

end LS8
