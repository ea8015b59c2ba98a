import LS8.Proofs.ImageFaults
import Mathlib.Logic.Relation

/-! The layout of a source. Comments, blanks around the text of a line and the kind of its line end can
be changed as one likes, and what the source is read as stays the same. Lines that hold nothing can be
put in between: then only the number of the line at fault may change. -/

namespace LS8

/-- Behind this text a line begins. -/
def LineStart (above : List Char) : Prop := above = [] ∨ ∃ text, above = text ++ ['\n']

/-- Before this text a line ends. -/
def LineStop (below : List Char) : Prop := below = [] ∨ ∃ text, below = '\n' :: text

/-- A change to one line that leaves alone what the line holds. -/
inductive LineEdit : List Char → List Char → Prop
  | comment {text old new : List Char} (noSign : '#' ∉ text) (tail : Comment old)
      (tail' : Comment new) : LineEdit (text ++ old) (text ++ new)
  | indent {blanks line : List Char} (blank : Blanks blanks) : LineEdit line (blanks ++ line)
  | trail {text blanks comment : List Char} (noSign : '#' ∉ text) (blank : Blanks blanks)
      (tail : Comment comment) : LineEdit (text ++ comment) (text ++ blanks ++ comment)

/-- A change to a source that leaves alone what its lines hold. -/
inductive Edit : List Char → List Char → Prop
  | line {above line line' below : List Char} (start : LineStart above) (stop : LineStop below)
      (noFeed : '\n' ∉ line) (noFeed' : '\n' ∉ line') (edit : LineEdit line line') :
      Edit (above ++ line ++ below) (above ++ line' ++ below)
  | lineEnd (above below : List Char) :
      Edit (above ++ '\n' :: below) (above ++ '\r' :: '\n' :: below)
  | lastFeed (source : List Char) : Edit source (source ++ ['\n'])

/-- A line is put into a source, below so many others. -/
inductive LineInserted (line : List Char) : Nat → List Char → List Char → Prop
  | between {above : List Char} (start : LineStart above) (below : List Char) :
      LineInserted line (above.count '\n') (above ++ below) (above ++ line ++ '\n' :: below)
  | last (source : List Char) :
      LineInserted line (1 + source.count '\n') source (source ++ '\n' :: line)

theorem LineEdit.significantText_eq {line line' : List Char} (h : LineEdit line line') :
    significantText line' = significantText line := by
  cases h with
  | comment noSign tail tail' =>
    rw [significantText_append_comment noSign tail, significantText_append_comment noSign tail']
  | @indent blanks _ blank =>
    obtain ⟨text, comment, noSign, tail, rfl⟩ := exists_eq_append_comment line
    have noSign' : '#' ∉ blanks ++ text := by simp [blank.noSign, noSign]
    rw [← List.append_assoc, significantText_append_comment noSign' tail,
      significantText_append_comment noSign tail, trimBlanks_append_left blank]
  | @trail text blanks comment noSign blank tail =>
    have noSign' : '#' ∉ text ++ blanks := by simp [blank.noSign, noSign]
    rw [significantText_append_comment noSign' tail, significantText_append_comment noSign tail,
      trimBlanks_append_right blank]

theorem LineStart.exists_splitOn {above below : List Char} (start : LineStart above)
    (stop : LineStop below) : ∃ before after, ∀ line, '\n' ∉ line →
      (above ++ line ++ below).splitOn '\n' = before ++ line :: after := by
  have ended : ∃ after, ∀ line, '\n' ∉ line → (line ++ below).splitOn '\n' = line :: after := by
    rcases stop with rfl | ⟨text, rfl⟩
    · exact ⟨[], fun line noFeed => by rw [List.append_nil, List.splitOn_eq_singleton noFeed]⟩
    · exact ⟨_, fun line noFeed => List.splitOn_append_cons_self_of_not_mem noFeed text⟩
  obtain ⟨after, ha⟩ := ended
  rcases start with rfl | ⟨text, rfl⟩
  · exact ⟨[], after, ha⟩
  · refine ⟨text.splitOn '\n', after, fun line noFeed => ?_⟩
    rw [List.append_assoc, List.append_assoc, List.singleton_append, List.splitOn_append_cons_self,
      ha line noFeed]

theorem exists_lineStart (text : List Char) :
    ∃ above line, LineStart above ∧ '\n' ∉ line ∧ text = above ++ line := by
  induction text with
  | nil => exact ⟨[], [], .inl rfl, List.not_mem_nil, rfl⟩
  | cons c text ih =>
    obtain ⟨above, line, start, noFeed, rfl⟩ := ih
    rcases start with rfl | ⟨front, rfl⟩
    · by_cases feed : c = '\n'
      · exact ⟨['\n'], line, .inr ⟨[], rfl⟩, noFeed, by rw [feed]; rfl⟩
      · exact ⟨[], c :: line, .inl rfl, List.not_mem_cons_of_ne_of_not_mem (Ne.symm feed) noFeed, rfl⟩
    · exact ⟨c :: front ++ ['\n'], line, .inr ⟨c :: front, rfl⟩, noFeed, rfl⟩

section Lines

variable {before after : List (List Char)} {line line' : List Char}

theorem Image.ofLines_congr (same : significantText line' = significantText line) :
    ofLines (before ++ line' :: after) = ofLines (before ++ line :: after) := by
  simp only [ofLines, List.zipIdx_append, List.zipIdx_cons, List.filterMap_append,
    List.filterMap_cons, Literal.ofLine?, same]

theorem Image.ofLines_of_nothing (nothing : significantText line = []) :
    ofLines [line] = .ok [] := by
  rw [ofLines, List.zipIdx_singleton, List.filterMap_cons, Literal.ofLine?_of_nothing nothing]
  rfl

theorem Image.joined_nothing (above : Nat) (front : Except Literal Image) :
    joined above front (.ok []) = front := by
  cases front with
  | error l => rfl
  | ok image => rw [joined, List.append_nil]

theorem Image.line_bounds {lines : List (List Char)} {l : Literal} (h : ofLines lines = .error l) :
    0 < l.line ∧ l.line ≤ lines.length := by
  obtain ⟨before, line, after, image, rfl, accepted, rejected⟩ := exists_first_fault h
  obtain ⟨hn, -⟩ := literal_of_first_fault accepted rejected
  rw [hn, List.length_append, List.length_cons]
  omega

theorem Image.ofLines_insert_nothing (nothing : significantText line = []) :
    ofLines (before ++ line :: after) = (ofLines (before ++ after)).mapError fun l =>
      if before.length < l.line then l.below 1 else l := by
  have hl : ofLines (line :: after) = joined 1 (.ok []) (ofLines after) := by
    rw [← ofLines_of_nothing nothing]
    exact ofLines_append [line] after
  rw [ofLines_append, ofLines_append, hl]
  cases hb : ofLines before with
  | error l =>
    have above : ¬ before.length < l.line := Nat.not_lt_of_le (line_bounds hb).2
    simp only [joined, Except.mapError, above, if_false]
  | ok front =>
    cases ha : ofLines after with
    | ok back => rfl
    | error l =>
      have below : before.length < (l.below before.length).line :=
        Nat.lt_add_of_pos_left (line_bounds ha).1
      simp only [joined, Except.mapError, below, if_true]
      simp only [Literal.below, Nat.add_right_comm]

end Lines

theorem Edit.ofLines_eq {source source' : List Char} (h : Edit source source') :
    Image.ofLines (source'.splitOn '\n') = Image.ofLines (source.splitOn '\n') := by
  cases h with
  | line start stop noFeed noFeed' edit =>
    obtain ⟨before, after, split⟩ := start.exists_splitOn stop
    rw [split _ noFeed, split _ noFeed', Image.ofLines_congr edit.significantText_eq]
  | lineEnd above below =>
    obtain ⟨above, line, start, noFeed, rfl⟩ := exists_lineStart above
    have stop : LineStop ('\n' :: below) := .inr ⟨below, rfl⟩
    have noFeed' : '\n' ∉ line ++ ['\r'] := by simp [noFeed]
    obtain ⟨before, after, split⟩ := start.exists_splitOn stop
    rw [split line noFeed, List.append_cons, List.append_assoc above, split _ noFeed',
      Image.ofLines_congr (significantText_append_return line)]
  | lastFeed =>
    have nothing : significantText [] = [] := rfl
    rw [List.splitOn_append_cons_self, List.splitOn_nil, Image.ofLines_append,
      Image.ofLines_of_nothing nothing, Image.joined_nothing]

theorem LineInserted.exists_splitOn {line source source' : List Char} {above : Nat}
    (h : LineInserted line above source source') (noFeed : '\n' ∉ line) :
    ∃ before after, source.splitOn '\n' = before ++ after ∧
      source'.splitOn '\n' = before ++ line :: after ∧ before.length = above := by
  cases h with
  | between start below =>
    have split := List.splitOn_append_cons_self_of_not_mem noFeed below
    rcases start with rfl | ⟨text, rfl⟩
    · exact ⟨[], below.splitOn '\n', rfl, split, rfl⟩
    · refine ⟨text.splitOn '\n', below.splitOn '\n', ?_, ?_, ?_⟩
      · rw [List.append_assoc, List.singleton_append, List.splitOn_append_cons_self]
      · rw [List.append_assoc, List.append_assoc, List.singleton_append,
          List.splitOn_append_cons_self, split]
      · rw [length_splitOn_feed, List.count_append, Nat.add_comm]
        rfl
  | last =>
    refine ⟨source.splitOn '\n', [], (List.append_nil _).symm, ?_, length_splitOn_feed source⟩
    rw [List.splitOn_append_cons_self, List.splitOn_eq_singleton noFeed]

theorem Edit.ofLines_eq_of_eqvGen {source source' : List Char}
    (h : Relation.EqvGen Edit source source') :
    Image.ofLines (source'.splitOn '\n') = Image.ofLines (source.splitOn '\n') := by
  induction h with
  | rel _ _ edit => exact edit.ofLines_eq
  | refl => rfl
  | symm _ _ _ ih => exact ih.symm
  | trans _ _ _ _ _ first second => exact second.trans first

/-- Sources that edits lead from one to the other, or back, are read alike, also if they are at fault.
A line put in between that holds nothing makes no difference to an image, and to a fault none but that
the line at fault is one further down, if it is below. -/
theorem Image.parse_edited :
    (∀ source source' : String, Relation.EqvGen Edit source.toList source'.toList →
      parse source' = parse source) ∧
    ∀ (line : List Char) (above : Nat) (source source' : String), LineHolds line none →
      '\n' ∉ line → LineInserted line above source.toList source'.toList →
      parse source' = (parse source).mapError fun l =>
        if above < l.line then l.below 1 else l := by
  constructor
  · intro source source' edited
    exact Edit.ofLines_eq_of_eqvGen edited
  · intro line above source source' holds noFeed inserted
    obtain ⟨before, after, hs, hs', rfl⟩ := inserted.exists_splitOn noFeed
    rw [parse_eq_ofLines, parse_eq_ofLines, hs, hs']
    exact ofLines_insert_nothing (lineHolds_none_iff.mp holds)

/-- A source at fault in its second line. The edits take away a carriage return, a comment and a blank
behind the text, and put a blank in front of it and a line feed behind the last line. -/
theorem Image.parse_edited_second_line :
    let source := "1#\r\n+ "
    let edited := "\t1\n+\n"
    let inserted := "1#\r\n\t# 0\n+ "
    let line := ['\t', '#', ' ', '0']
    Relation.EqvGen Edit source.toList edited.toList ∧ LineHolds line none ∧ '\n' ∉ line ∧
      LineInserted line 1 source.toList inserted.toList ∧ parse source = .error ⟨2, ['+']⟩ ∧
      parse edited = .error ⟨2, ['+']⟩ ∧ parse inserted = .error ⟨3, ['+']⟩ := by
  intro source edited inserted line
  have tab : Blanks ['\t'] := by decide
  have space : Blanks [' '] := by decide
  have first : LineStart [] := .inl rfl
  have behind : LineStop ['\n', '+', ' '] := .inr ⟨['+', ' '], rfl⟩
  have second : LineStart ['\t', '1', '\n'] := .inr ⟨['\t', '1'], rfl⟩
  have last : LineStop [] := .inl rfl
  have bare : Edit "1#\n+ ".toList "1\n+ ".toList :=
    .line first behind (by decide) (by decide)
      (@LineEdit.comment ['1'] _ _ (by decide) (.some []) .none)
  have indented : Edit "1\n+ ".toList "\t1\n+ ".toList :=
    .line first behind (by decide) (by decide) (@LineEdit.indent _ ['1'] tab)
  have trailed : Edit "\t1\n+".toList "\t1\n+ ".toList :=
    .line second last (by decide) (by decide)
      (@LineEdit.trail ['+'] _ _ (by decide) space .none)
  have edits : Relation.EqvGen Edit "1#\r\n+ ".toList "\t1\n+\n".toList :=
    .trans _ _ _ (.symm _ _ (.rel _ _ (.lineEnd ['1', '#'] ['+', ' '])))
      (.trans _ _ _ (.rel _ _ bare) (.trans _ _ _ (.rel _ _ indented)
        (.trans _ _ _ (.symm _ _ (.rel _ _ trailed)) (.rel _ _ (.lastFeed _)))))
  have holds : LineHolds line none := @LineHolds.nothing ['\t'] _ tab (.some [' ', '0'])
  have put : LineInserted ['\t', '#', ' ', '0'] 1 "1#\r\n+ ".toList "1#\r\n\t# 0\n+ ".toList :=
    @LineInserted.between _ ['1', '#', '\r', '\n'] (.inr ⟨['1', '#', '\r'], rfl⟩) ['+', ' ']
  have rejected : parse source = .error ⟨2, ['+']⟩ := by decide
  obtain ⟨alike, below⟩ := parse_edited
  refine ⟨edits, holds, by decide, put, rejected, (alike _ _ edits).trans rejected, ?_⟩
  rw [below line 1 _ _ holds (by decide) put, rejected]
  rfl

end LS8
