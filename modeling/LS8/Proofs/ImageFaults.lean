import LS8.Proofs.ImageChunks

/-! Faults of sources. The literal that is reported is the text of the first line that holds
something else than one byte. Without that line and those behind it the source is an image, and what
stands behind it makes no difference. -/

namespace LS8

/-- The text of a line before its first number sign, apart from the blanks around it. -/
inductive LineText : List Char → List Char → Prop
  | between {before text after comment : List Char} (blank : Blanks before) (blank' : Blanks after)
      (trimmed : ∀ c, text.head? = some c ∨ text.getLast? = some c → ¬ isBlank c)
      (noSign : '#' ∉ text) (tail : Comment comment) :
      LineText (before ++ text ++ after ++ comment) text

inductive NoByte (text : List Char) : Prop
  | character {c : Char} (mem : c ∈ text) (notZero : c ≠ '0') (notOne : c ≠ '1') : NoByte text
  | tooLarge (binary : ∀ c ∈ text, c = '0' ∨ c = '1') (large : 256 ≤ numeralValue 2 text) :
      NoByte text

/-- A source is cut between two lines. Line ends belong to the line before them. -/
structure LineCut (source front back : List Char) (before after : List (List Char)) : Prop where
  source_eq : source = front ++ back
  front_lines : Lines front before
  back_lines : Lines back after
  ended : front = [] ∨ ∃ text, front = text ++ ['\n']

theorem trimBlanks_trimmed (text : List Char) {c : Char}
    (h : (trimBlanks text).head? = some c ∨ (trimBlanks text).getLast? = some c) : ¬ isBlank c := by
  let body := text.dropWhile isBlank
  have start := List.head?_dropWhile_not isBlank text
  have stop := List.head?_dropWhile_not isBlank body.reverse
  rcases h with first | last
  · obtain ⟨rest, hr⟩ : trimBlanks text <+: body := List.rdropWhile_prefix isBlank body
    have hb : (text.dropWhile isBlank).head? = some c := by
      rw [show text.dropWhile isBlank = _ from hr.symm, List.head?_append, first]
      rfl
    simpa [hb] using start
  · have hb : (body.reverse.dropWhile isBlank).head? = some c := by
      rwa [trimBlanks, List.getLast?_reverse] at last
    simpa [hb] using stop

theorem lineText_significantText (line : List Char) : LineText line (significantText line) := by
  obtain ⟨front, comment, noSign, tail, rfl⟩ := exists_eq_append_comment line
  obtain ⟨before, after, hb, ha, ht⟩ := exists_eq_trimBlanks front
  rw [significantText_append_comment noSign tail]
  have noSign' : '#' ∉ trimBlanks front := fun hm => noSign (by rw [ht]; simp [hm])
  have hl : LineText (before ++ trimBlanks front ++ after ++ comment) (trimBlanks front) :=
    .between hb ha (fun _ => trimBlanks_trimmed front) noSign' tail
  rwa [← ht] at hl

theorem LineText.mem {line text : List Char} (h : LineText line text) {c : Char} (hc : c ∈ text) :
    c ∈ line := by
  cases h
  simp [hc]

theorem LineText.noSign {line text : List Char} (h : LineText line text) : '#' ∉ text := by
  cases h
  assumption

theorem Literal.noByte_of_byte {l fault : Literal} (nonempty : l.text ≠ [])
    (h : l.byte = .error fault) : NoByte l.text := by
  by_cases binary : ∀ c ∈ l.text, c = '0' ∨ c = '1'
  · refine .tooLarge binary (Nat.lt_of_not_le fun small => ?_)
    have value : (UInt8.ofNat (numeralValue 2 l.text)).toNat = numeralValue 2 l.text :=
      UInt8.toNat_ofNat_of_lt' (Nat.lt_succ_of_le small)
    cases h.symm.trans (byte_eq_ok_iff.mpr ⟨nonempty, binary, value.symm⟩)
  · obtain ⟨c, hc⟩ := Classical.not_forall.mp binary
    obtain ⟨mem, other⟩ := Classical.not_imp.mp hc
    exact .character mem (fun he => other (.inl he)) (fun he => other (.inr he))

theorem Image.noByte_of_ofLines_singleton {line : List Char} {l : Literal}
    (h : ofLines [line] = .error l) :
    l.line = 1 ∧ l.text = significantText line ∧ l.text ≠ [] ∧ NoByte l.text := by
  have ho : ofLines [line] = (Literal.ofLine? (line, 1)).toList.mapM Literal.byte := by
    rw [ofLines, List.zipIdx_singleton]
    cases hl : Literal.ofLine? (line, 1) <;> simp [hl]
  rw [ho] at h
  by_cases nothing : significantText line = []
  · rw [Literal.ofLine?_of_nothing nothing] at h
    cases h
  · rw [Literal.ofLine?_of_text nothing, Option.toList_some, List.mapM_cons] at h
    obtain h | ⟨_, _, h⟩ := error_or_ok_of_bind_eq_error h
    · cases Literal.eq_of_byte_eq_error h
      exact ⟨rfl, rfl, nothing, Literal.noByte_of_byte nothing h⟩
    · cases h

theorem Image.exists_first_fault {lines : List (List Char)} {l : Literal}
    (h : ofLines lines = .error l) :
    ∃ before line after image, lines = before ++ line :: after ∧ ofLines before = .ok image ∧
      ofLines (before ++ [line]) = .error l := by
  -- from the last line: if the lines in front of it are at fault already, it has no part in that
  induction lines using List.reverseRecOn with
  | nil => cases h
  | append_singleton lines line ih =>
    cases hl : ofLines lines with
    | ok image => exact ⟨lines, line, [], image, rfl, hl, h⟩
    | error l' =>
      rw [ofLines_append, hl] at h
      cases h
      obtain ⟨before, line', after, image, rfl, accepted, rejected⟩ := ih hl
      refine ⟨before, line', after ++ [line], image, ?_, accepted, rejected⟩
      rw [List.append_assoc, List.cons_append]

theorem Image.literal_of_first_fault {before : List (List Char)} {line : List Char} {image : Image}
    {l : Literal} (accepted : ofLines before = .ok image)
    (rejected : ofLines (before ++ [line]) = .error l) :
    l.line = before.length + 1 ∧ l.text = significantText line ∧ l.text ≠ [] ∧ NoByte l.text := by
  rw [ofLines_append, accepted] at rejected
  cases hl : ofLines [line] with
  | ok bytes =>
    rw [hl] at rejected
    cases rejected
  | error l' =>
    rw [hl] at rejected
    cases rejected
    obtain ⟨hn, ht, nonempty, noByte⟩ := noByte_of_ofLines_singleton hl
    exact ⟨by rw [Literal.below, hn, Nat.add_comm], ht, nonempty, noByte⟩

theorem Image.ofLines_eq_error_of_front {front : List (List Char)} {l : Literal}
    (h : ofLines front = .error l) (behind : List (List Char)) :
    ofLines (front ++ behind) = .error l := by
  rw [ofLines_append, h]
  rfl

theorem Lines.eq_of_noFeed {source : List Char} {lines : List (List Char)} (h : Lines source lines)
    (noFeed : '\n' ∉ source) : lines = if source = [] then [] else [source] := by
  cases h with
  | nil => rfl
  | last text => rw [if_neg text]
  | feed | returnFeed => exact absurd noFeed (by simp)

theorem eq_of_append_feed {line line' rest rest' : List Char} (noFeed : '\n' ∉ line)
    (noFeed' : '\n' ∉ line') (h : line ++ '\n' :: rest = line' ++ '\n' :: rest') :
    line = line' ∧ rest = rest' := by
  have hs := congrArg (List.splitOn '\n') h
  rw [List.splitOn_append_cons_self_of_not_mem noFeed,
    List.splitOn_append_cons_self_of_not_mem noFeed'] at hs
  obtain ⟨rfl, -⟩ := List.cons.inj hs
  exact ⟨rfl, (List.cons.inj (List.append_cancel_left h)).2⟩

theorem Lines.eq_cons_of_feed {line rest : List Char} {lines : List (List Char)}
    (h : Lines (line ++ '\n' :: rest) lines) (noFeed : '\n' ∉ line) :
    ∃ more, Lines rest more ∧
      lines = (if line.getLast? = some '\r' then line.dropLast else line) :: more := by
  generalize hs : line ++ '\n' :: rest = source at h
  cases h with
  | nil => exact absurd hs (by simp)
  | last _ noFeed' => exact absurd noFeed' (by simp [← hs])
  | feed noFeed' noReturn more =>
    obtain ⟨rfl, rfl⟩ := eq_of_append_feed noFeed noFeed' hs
    exact ⟨_, more, by rw [if_neg noReturn]⟩
  | @returnFeed line' _ _ noFeed' more =>
    have noFeed'' : '\n' ∉ line' ++ ['\r'] := by simp [noFeed']
    obtain ⟨rfl, rfl⟩ := eq_of_append_feed noFeed noFeed'' (by rw [hs, List.append_cons])
    exact ⟨_, more, by simp⟩

theorem Lines.unique {source : List Char} {lines lines' : List (List Char)} (h : Lines source lines)
    (h' : Lines source lines') : lines' = lines := by
  induction h generalizing lines' with
  | nil => exact h'.eq_of_noFeed List.not_mem_nil
  | last text noFeed => rw [h'.eq_of_noFeed noFeed, if_neg text]
  | feed noFeed noReturn _ ih =>
    obtain ⟨more', hm, rfl⟩ := h'.eq_cons_of_feed noFeed
    rw [if_neg noReturn, ih hm]
  | @returnFeed line _ _ noFeed _ ih =>
    have noFeed' : '\n' ∉ line ++ ['\r'] := by simp [noFeed]
    rw [List.append_cons] at h'
    obtain ⟨more', hm, rfl⟩ := h'.eq_cons_of_feed noFeed'
    rw [ih hm]
    simp

theorem exists_ended {front : List Char} (line : List Char)
    (ended : front = [] ∨ ∃ text, front = text ++ ['\n']) :
    ∃ text, line ++ '\n' :: front = text ++ ['\n'] := by
  rcases ended with rfl | ⟨text, rfl⟩
  · exact ⟨line, rfl⟩
  · exact ⟨line ++ '\n' :: text, by simp⟩

theorem Lines.exists_cut {source : List Char} {before after : List (List Char)}
    (h : Lines source (before ++ after)) (more : after ≠ []) :
    ∃ front back, LineCut source front back before after := by
  induction before generalizing source with
  | nil => exact ⟨[], source, rfl, .nil, h, .inl rfl⟩
  | cons line before ih =>
    generalize hl : line :: before ++ after = lines at h
    cases h with
    | nil => cases hl
    | last =>
      obtain ⟨-, none⟩ := List.cons.inj hl
      exact (more (List.append_eq_nil_iff.mp none).2).elim
    | @feed line _ _ noFeed noReturn rest =>
      cases hl
      obtain ⟨front, back, rfl, hf, hb, ended⟩ := ih rest
      refine ⟨line ++ '\n' :: front, back, by simp, .feed noFeed noReturn hf, hb, .inr ?_⟩
      exact exists_ended line ended
    | @returnFeed line _ _ noFeed rest =>
      cases hl
      obtain ⟨front, back, rfl, hf, hb, ended⟩ := ih rest
      refine ⟨line ++ '\r' :: '\n' :: front, back, by simp, .returnFeed noFeed hf, hb, .inr ?_⟩
      rw [List.append_cons]
      exact exists_ended (line ++ ['\r']) ended

/-- The literal that is reported is the text of the first line that holds something else than one
byte. The source cut before that line is an image, and any source with the same lines up to that one
is rejected with the same literal. -/
theorem Image.parse_eq_error {source : String} {l : Literal} (rejected : parse source = .error l) :
    ∃ before line after front back,
      (∀ lines, Lines source.toList lines ↔ lines = before ++ line :: after) ∧
      l.line = before.length + 1 ∧
      LineCut source.toList front back before (line :: after) ∧
      (∃ image, parse (.ofList front) = .ok image) ∧
      LineText line l.text ∧ l.text ≠ [] ∧ '#' ∉ l.text ∧ '\n' ∉ l.text ∧ NoByte l.text ∧
      ∀ (other : String) (after' : List (List Char)),
        Lines other.toList (before ++ line :: after') → parse other = .error l := by
  obtain ⟨lines, h⟩ := exists_lines source.toList
  rw [h.parse_eq] at rejected
  obtain ⟨before, line, after, image, rfl, accepted, first⟩ := exists_first_fault rejected
  obtain ⟨hn, ht, nonempty, noByte⟩ := literal_of_first_fault accepted first
  obtain ⟨front, back, cut⟩ := h.exists_cut (List.cons_ne_nil line after)
  have hf : Lines (String.ofList front).toList before := by
    rw [String.toList_ofList]
    exact cut.front_lines
  have text : LineText line l.text := ht ▸ lineText_significantText line
  have noFeed : '\n' ∉ line := h.noFeed line (by simp)
  refine ⟨before, line, after, front, back, fun lines => ⟨h.unique, fun hl => hl ▸ h⟩, hn, cut,
    ⟨image, hf.parse_eq.trans accepted⟩, text, nonempty, text.noSign,
    fun hm => noFeed (text.mem hm), noByte, fun other after' ho => ?_⟩
  rw [ho.parse_eq, List.append_cons]
  exact ofLines_eq_error_of_front first after'

/-- The second line is at fault, and so is the third. Of another source it is the last one, with
another line end. -/
theorem Image.parse_eq_error_second_line :
    let source := "#\r\n 2#\n+"
    let other := "#\n 2#\r\n"
    let l : Literal := ⟨2, ['2']⟩
    let lines := [['#'], [' ', '2', '#'], ['+']]
    parse source = .error l ∧ Lines source.toList lines ∧ parse other = .error l ∧
      LineText [' ', '2', '#'] l.text ∧ NoByte l.text ∧
      ∃ front back, LineCut source.toList front back (lines.take 1) (lines.drop 1) ∧
        ∃ image, parse (.ofList front) = .ok image := by
  intro source other l lines
  have plus : Lines ['+'] [['+']] := .last (by decide) (by decide)
  have hs : Lines "#\r\n 2#\n+".toList [['#'], [' ', '2', '#'], ['+']] :=
    @Lines.returnFeed ['#'] _ _ (by decide)
      (@Lines.feed [' ', '2', '#'] _ _ (by decide) (by decide) plus)
  have ho : Lines "#\n 2#\r\n".toList [['#'], [' ', '2', '#']] :=
    @Lines.feed ['#'] _ _ (by decide) (by decide)
      (@Lines.returnFeed [' ', '2', '#'] _ _ (by decide) .nil)
  have rejected : parse source = .error l := by decide
  obtain ⟨before, line, after, front, back, hl, hn, cut, accepted, text, -, -, -, noByte, same⟩ :=
    parse_eq_error rejected
  obtain ⟨first, rfl⟩ := List.length_eq_one_iff.mp (Nat.succ.inj hn).symm
  cases (hl _).mp hs
  exact ⟨rejected, hs, same other [] ho, text, noByte, front, back, cut, accepted⟩

end LS8
