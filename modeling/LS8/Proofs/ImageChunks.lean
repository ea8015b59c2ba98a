import LS8.Proofs.ImageGrammar

/-! Sources in chunks. What lines are read as depends on the lines before them only in the number of
the line at fault, and on the lines behind them not at all. So chunks of lines can be read by
themselves, in any order, and put together in the order of the source. -/

namespace LS8

def Literal.below (above : Nat) (l : Literal) : Literal := { l with line := l.line + above }

theorem Literal.byte_below (above : Nat) (l : Literal) :
    (l.below above).byte = l.byte.mapError (below above) := by
  rw [byte, byte, below]
  cases readNumeral 2 0xFF l.text <;> rfl

theorem Literal.ofLine?_add (line : List Char) (number above : Nat) :
    ofLine? (line, number + above) = (ofLine? (line, number)).map (below above) := by
  by_cases nothing : significantText line = []
  · rw [ofLine?_of_nothing nothing, ofLine?_of_nothing nothing]
    rfl
  · rw [ofLine?_of_text nothing, ofLine?_of_text nothing]
    rfl

theorem Literal.mapM_byte_below (above : Nat) (literals : List Literal) :
    (literals.map (below above)).mapM byte = (literals.mapM byte).mapError (below above) := by
  induction literals with
  | nil => rfl
  | cons l literals ih =>
    rw [List.map_cons, List.mapM_cons, List.mapM_cons, byte_below, ih]
    cases l.byte with
    | error fault => rfl
    | ok value => cases literals.mapM byte <;> rfl

def Image.ofLines (lines : List (List Char)) : Except Literal Image :=
  ((lines.zipIdx 1).filterMap Literal.ofLine?).mapM Literal.byte

theorem Image.parse_eq_ofLines (source : String) :
    parse source = ofLines (source.toList.splitOn '\n') := rfl

theorem Lines.parse_eq {source : String} {lines : List (List Char)}
    (h : Lines source.toList lines) : Image.parse source = Image.ofLines lines := by
  rw [Image.parse, h.ofSource_eq]
  rfl

/-- What a source is read as whose first lines, `above` in number, are read as `front` and whose
other lines are read as `back` by themselves. -/
def Image.joined (above : Nat) (front back : Except Literal Image) : Except Literal Image :=
  match front, back with
  | .error l, _ => .error l
  | .ok _, .error l => .error (l.below above)
  | .ok front, .ok back => .ok (front ++ back)

theorem filterMap_ofLine?_add (lines : List (List Char)) (number above : Nat) :
    (lines.zipIdx (number + above)).filterMap Literal.ofLine? =
      ((lines.zipIdx number).filterMap Literal.ofLine?).map (Literal.below above) := by
  rw [Nat.add_comm, ← List.map_snd_add_zipIdx_eq_zipIdx, List.filterMap_map, List.map_filterMap]
  refine List.filterMap_congr fun (line, k) _ => ?_
  exact Literal.ofLine?_add line k above

theorem Image.ofLines_append (before after : List (List Char)) :
    ofLines (before ++ after) = joined before.length (ofLines before) (ofLines after) := by
  have ha : ((after.zipIdx (1 + before.length)).filterMap Literal.ofLine?).mapM Literal.byte =
      (ofLines after).mapError (Literal.below before.length) := by
    rw [filterMap_ofLine?_add, Literal.mapM_byte_below, ofLines]
  rw [ofLines, List.zipIdx_append, List.filterMap_append, List.mapM_append, ha, ← ofLines]
  cases ofLines before with
  | error fault => rfl
  | ok front => cases ofLines after <;> rfl

theorem length_splitOn_feed (source : List Char) :
    (source.splitOn '\n').length = 1 + source.count '\n' := by
  induction source with
  | nil => rfl
  | cons c source ih =>
    rw [List.splitOn_cons_eq_if_modifyHead, List.count_cons]
    split
    · rw [List.length_cons, ih]
      omega
    · rw [List.length_modifyHead, ih]
      rfl

theorem Image.parse_append_feed (front back : String) :
    parse (front ++ "\n" ++ back) =
      joined (1 + front.toList.count '\n') (parse front) (parse back) := by
  have hl : (front ++ "\n" ++ back).toList = front.toList ++ '\n' :: back.toList := by
    simp [String.toList_append]
  rw [parse_eq_ofLines, parse_eq_ofLines, parse_eq_ofLines, hl, List.splitOn_append_cons_self,
    ofLines_append, length_splitOn_feed]

/-- What came of a chunk of lines that was read by itself: the place of the chunk in the source, the
number of its lines, and what they were read as. -/
structure ChunkReading where
  place : Nat
  lines : Nat
  result : Except Literal Image

/-- The chunk at a place was read from a text that has its lines and no others. -/
inductive ChunkReading.Of : List (List Char) × Nat → ChunkReading → Prop
  | read {text : String} {chunk : List (List Char)} (h : Lines text.toList chunk) (place : Nat) :
      Of (chunk, place) ⟨place, chunk.length, Image.parse text⟩

def Image.assemble (readings : List ChunkReading) : Except Literal Image :=
  (readings.mergeSort (·.place ≤ ·.place)).foldr (fun r behind => joined r.lines r.result behind)
    (.ok [])

theorem ChunkReading.mergeSort_eq_of_perm {readings ordered : List ChunkReading}
    (sorted : ordered.Pairwise (·.place < ·.place)) (h : readings.Perm ordered) :
    readings.mergeSort (·.place ≤ ·.place) = ordered := by
  -- no two places are equal, so the order is strict, and a row in strict order is the only one
  have perm := (List.mergeSort_perm readings (·.place ≤ ·.place)).trans h
  have distinct : (readings.mergeSort (·.place ≤ ·.place)).Pairwise (·.place ≠ ·.place) :=
    (perm.pairwise_iff Ne.symm).mpr (sorted.imp Nat.ne_of_lt)
  have le : (readings.mergeSort (·.place ≤ ·.place)).Pairwise (·.place ≤ ·.place) := by
    have h := @List.pairwise_mergeSort _ (fun p q : ChunkReading => decide (p.place ≤ q.place))
      (fun p q r hpq hqr => by simp only [decide_eq_true_eq] at *; omega)
      (fun p q => by simp only [Bool.or_eq_true, decide_eq_true_eq]; omega) readings
    simpa only [decide_eq_true_eq] using h
  have lt := le.imp₂ (fun _ _ hle hne => Nat.lt_of_le_of_ne hle hne) distinct
  exact perm.eq_of_pairwise (fun p q _ _ hpq hqp => absurd hqp (Nat.lt_asymm hpq)) lt sorted

theorem ChunkReading.map_place_of_forall {placed : List (List (List Char) × Nat)}
    {ordered : List ChunkReading} (h : List.Forall₂ ChunkReading.Of placed ordered) :
    ordered.map place = placed.map Prod.snd := by
  induction h with
  | nil => rfl
  | cons of _ ih =>
    cases of
    rw [List.map_cons, List.map_cons, ih]

section Chunks

variable {chunks : List (List (List Char))} {start : Nat} {readings ordered : List ChunkReading}

theorem ChunkReading.sorted_of_forall
    (h : List.Forall₂ ChunkReading.Of (chunks.zipIdx start) ordered) :
    ordered.Pairwise (·.place < ·.place) := by
  have ascending : (ordered.map place).Pairwise (· < ·) := by
    rw [map_place_of_forall h, List.zipIdx_map_snd]
    exact List.pairwise_lt_range' 1
  exact List.pairwise_map.mp ascending

theorem Image.foldr_joined_eq_ofLines
    (h : List.Forall₂ ChunkReading.Of (chunks.zipIdx start) ordered) :
    ordered.foldr (fun r behind => joined r.lines r.result behind) (.ok []) =
      ofLines chunks.flatten := by
  induction chunks generalizing start ordered with
  | nil =>
    cases h
    rfl
  | cons chunk chunks ih =>
    cases h with
    | cons of rest =>
      cases of with
      | read text =>
        rw [List.foldr_cons, ih rest, text.parse_eq, List.flatten_cons, ofLines_append]

theorem Image.assemble_eq_ofLines (h : List.Forall₂ ChunkReading.Of chunks.zipIdx ordered)
    (arrived : readings.Perm ordered) : assemble readings = ofLines chunks.flatten := by
  rw [assemble, ChunkReading.mergeSort_eq_of_perm (ChunkReading.sorted_of_forall h) arrived]
  exact foldr_joined_eq_ofLines h

end Chunks

theorem Lines.noFeed {source : List Char} {lines : List (List Char)} (h : Lines source lines) :
    ∀ line ∈ lines, '\n' ∉ line := by
  induction h with
  | nil => nofun
  | last _ noFeed => exact List.forall_mem_singleton.mpr noFeed
  | feed noFeed _ _ ih | returnFeed noFeed _ ih => exact List.forall_mem_cons.mpr ⟨noFeed, ih⟩

theorem exists_text_of_noFeed {chunk : List (List Char)} (noFeed : ∀ line ∈ chunk, '\n' ∉ line) :
    ∃ text : String, Lines text.toList chunk := by
  -- this line end suits any line, while a line feed takes away a return at the end of the line
  have ended : Lines (chunk.flatMap (· ++ ['\r', '\n'])) chunk := by
    induction chunk with
    | nil => exact .nil
    | cons line chunk ih =>
      obtain ⟨hl, hc⟩ := List.forall_mem_cons.mp noFeed
      rw [List.flatMap_cons, List.append_assoc]
      exact .returnFeed hl (ih hc)
  exact ⟨.ofList _, by rwa [String.toList_ofList]⟩

theorem exists_readings {chunks : List (List (List Char))}
    (noFeed : ∀ chunk ∈ chunks, ∀ line ∈ chunk, '\n' ∉ line) (start : Nat) :
    ∃ ordered, List.Forall₂ ChunkReading.Of (chunks.zipIdx start) ordered := by
  induction chunks generalizing start with
  | nil => exact ⟨[], .nil⟩
  | cons chunk chunks ih =>
    obtain ⟨hc, hr⟩ := List.forall_mem_cons.mp noFeed
    obtain ⟨text, ht⟩ := exists_text_of_noFeed hc
    obtain ⟨ordered, ho⟩ := ih hr (start + 1)
    exact ⟨_ :: ordered, .cons (.read ht start) ho⟩

/-- Two sources with a line feed between them are read one after the other: the first fault is that
of the front, or else that of the back with the lines above it counted in. And however the lines of
a source are cut into chunks, the chunks can be read by themselves, and from what came of them, in
whichever order it arrived, the source is put together with its first fault. -/
theorem Image.parse_in_chunks :
    (∀ front back : String, parse (front ++ "\n" ++ back) =
      joined (1 + front.toList.count '\n') (parse front) (parse back)) ∧
    ∀ (source : String) (chunks : List (List (List Char))), Lines source.toList chunks.flatten →
      (∃ ordered, List.Forall₂ ChunkReading.Of chunks.zipIdx ordered) ∧
      ∀ ordered readings, List.Forall₂ ChunkReading.Of chunks.zipIdx ordered →
        readings.Perm ordered → assemble readings = parse source := by
  refine ⟨parse_append_feed, fun source chunks lines => ⟨?_, fun ordered readings h arrived => ?_⟩⟩
  · refine exists_readings (fun chunk hc line hl => ?_) 0
    exact lines.noFeed line (List.mem_flatten_of_mem hc hl)
  · rw [assemble_eq_ofLines h arrived, lines.parse_eq]

/-- Four chunks, one of them empty, that arrive in reverse. The last one is at fault twice. -/
theorem Image.parse_in_chunks_reversed :
    let source := "1\n\n#\r\n2\n+"
    let chunks : List (List (List Char)) := [[['1']], [[], ['#']], [], [['2'], ['+']]]
    let ordered : List ChunkReading :=
      [⟨0, 1, parse "1"⟩, ⟨1, 2, parse "\n#"⟩, ⟨2, 0, parse ""⟩, ⟨3, 2, parse "2\r\n+\n"⟩]
    Lines source.toList chunks.flatten ∧ List.Forall₂ ChunkReading.Of chunks.zipIdx ordered ∧
      ordered.reverse.Perm ordered ∧ assemble ordered.reverse = parse source ∧
      parse source = .error ⟨4, ['2']⟩ ∧ parse ("2\n+" ++ "\n" ++ "1") = .error ⟨1, ['2']⟩ := by
  intro source chunks ordered
  have plus : Lines ['+'] [['+']] := .last (by decide) (by decide)
  have lines : Lines "1\n\n#\r\n2\n+".toList [['1'], [], ['#'], ['2'], ['+']] :=
    @Lines.feed ['1'] _ _ (by decide) (by decide)
      (@Lines.feed [] _ _ (by decide) (by decide)
        (@Lines.returnFeed ['#'] _ _ (by decide)
          (@Lines.feed ['2'] _ _ (by decide) (by decide) plus)))
  have first : Lines "1".toList [['1']] := .last (by decide) (by decide)
  have second : Lines "\n#".toList [[], ['#']] :=
    @Lines.feed [] _ _ (by decide) (by decide) (.last (by decide) (by decide))
  have third : Lines "".toList [] := .nil
  have fourth : Lines "2\r\n+\n".toList [['2'], ['+']] :=
    @Lines.returnFeed ['2'] _ _ (by decide) (@Lines.feed ['+'] _ _ (by decide) (by decide) .nil)
  have read : List.Forall₂ ChunkReading.Of chunks.zipIdx ordered :=
    .cons (.read first 0)
      (.cons (.read second 1) (.cons (.read third 2) (.cons (.read fourth 3) .nil)))
  obtain ⟨joins, assembles⟩ := parse_in_chunks
  obtain ⟨-, same⟩ := assembles source chunks lines
  refine ⟨lines, read, ordered.reverse_perm, same _ _ read ordered.reverse_perm, by decide, ?_⟩
  rw [joins]
  decide

end LS8
