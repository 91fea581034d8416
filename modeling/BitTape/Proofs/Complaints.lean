import BitTape.Proofs.Grammar

/-!
# Complaints about a source

A source that is not assembled is reported with its first faults: odd characters and words that
stand for nothing, in the order of the source, and a comment without end behind all others.
`Faults` lists them from the tokens of the source, each with the place where it starts.
-/

namespace BitTape

/-! ## Places in a text -/

namespace Position

/-- The position behind some characters: their bytes, their line feeds and what follows the last. -/
def behind (before : List Char) : Position :=
  { offset := (encode before).length
    line := before.count '\n' + 1
    column := (before.reverse.takeWhile (· ≠ '\n')).length + 1 }

theorem after_behind (before : List Char) (char : Char) :
    (behind before).after (.char char) = behind (before ++ [char]) := by
  have size : (Glyph.char char).size = (encode [char]).length := by
    simp [encode, Glyph.size, Glyph.bytes]
  by_cases feeds : char = '\n'
  · subst feeds
    simp [after, behind, size]
  · simp [after, behind, size, feeds]

theorem afterAll_eq (chars : List Char) : afterAll chars = behind chars := by
  induction chars using List.reverseRecOn with
  | nil => rfl
  | append_singleton front char ih =>
      rw [← after_behind, ← ih, afterAll, List.foldl_append]
      rfl

end Position

/-- Marks of the characters of a text that stand behind others. -/
inductive Placed : (before : List Char) → (marks : List Mark) → (chars : List Char) → Prop where
  | nil {before : List Char} : Placed before [] []
  | cons {before chars : List Char} {mark : Mark} {marks : List Mark} {char : Char} :
      mark.glyph = .char char → mark.position = .behind before →
        Placed (before ++ [char]) marks chars → Placed before (mark :: marks) (char :: chars)

theorem placed_placeFrom (failure : Option Bytes) (last : Position) (before chars : List Char) :
    Placed before (placeFrom failure last (.behind before) (chars.map .char)).1 chars := by
  induction chars generalizing last before with
  | nil => exact .nil
  | cons char rest ih =>
      rw [List.map_cons, placeFrom_cons, Position.after_behind]
      exact .cons rfl rfl (ih _ _)

namespace Placed

theorem map_glyph {before chars : List Char} {marks : List Mark}
    (placed : Placed before marks chars) : marks.map Mark.glyph = chars.map .char := by
  induction placed with
  | nil => rfl
  | cons glyph_eq _ _ ih => rw [List.map_cons, List.map_cons, glyph_eq, ih]

theorem head {before chars : List Char} {mark : Mark} {marks : List Mark}
    (placed : Placed before (mark :: marks) chars) :
    chars ≠ [] ∧ mark.position = .behind before := by
  cases placed with
  | cons _ position_eq _ => exact ⟨List.cons_ne_nil _ _, position_eq⟩

theorem of_append {before chars : List Char} {front back : List Mark}
    (placed : Placed before (front ++ back) chars) :
    ∃ first second, chars = first ++ second ∧ Placed before front first ∧
      Placed (before ++ first) back second := by
  induction front generalizing before chars with
  | nil => exact ⟨[], chars, rfl, .nil, by simpa using placed⟩
  | cons mark front ih =>
      cases placed with
      | @cons _ chars _ _ char glyph_eq position_eq placed =>
          obtain ⟨first, second, rfl, placedFirst, placedSecond⟩ := ih placed
          exact ⟨char :: first, second, rfl, .cons glyph_eq position_eq placedFirst,
            by simpa using placedSecond⟩

theorem eq_of_reads {before first second rest token : List Char} {lexeme : Lexeme}
    (placed : Placed before lexeme.marks first) (read : lexeme.Reads token)
    (split : token ++ rest = first ++ second) : token = first ∧ rest = second := by
  have lengths : lexeme.marks.length = first.length := by
    simpa using congrArg List.length placed.map_glyph
  cases read with
  | blank => exact List.append_inj split lengths
  | odd => exact List.append_inj split lengths
  | word _ spelled =>
      have same : token = first :=
        encode_injective (spelled.symm.trans (Mark.flatMap_bytes_of_glyphs placed.map_glyph))
      subst same
      exact ⟨rfl, List.append_cancel_left split⟩

end Placed

/-! ## Events of tokens -/

/-- The events of tokens that stand behind some characters. -/
inductive Spots : (before : List Char) → (source : List (List Char)) → (events : List Event) → Prop
    where
  | done {before : List Char} : Spots before [] []
  | blank {before : List Char} {char : Char} {rest : List (List Char)} {events : List Event} :
      isBlankChar char = true → Spots (before ++ [char]) rest events →
        Spots before ([char] :: rest) events
  | odd {before : List Char} {char : Char} {rest : List (List Char)} {events : List Event} :
      isBlankChar char = false → isWordChar char = false → Spots (before ++ [char]) rest events →
        Spots before ([char] :: rest) (.odd (.behind before) char :: events)
  | word {before word : List Char} {rest : List (List Char)} {events : List Event} :
      word ≠ [] → (∀ char ∈ word, isWordChar char = true) → Spots (before ++ word) rest events →
        Spots before (word :: rest) (.word (.behind before) (encode word) :: events)

theorem spots_of_placed {before : List Char} {found : List Lexeme} {source : List (List Char)}
    (reads : List.Forall₂ Lexeme.Reads found source)
    (placed : Placed before (found.flatMap Lexeme.marks) source.flatten) :
    Spots before source (found.filterMap Lexeme.event?) := by
  induction reads generalizing before with
  | nil => exact .done
  | @cons lexeme token found source read reads ih =>
      rw [List.flatMap_cons, List.flatten_cons] at placed
      obtain ⟨first, second, split, placedFirst, placedSecond⟩ := placed.of_append
      obtain ⟨rfl, rfl⟩ := placedFirst.eq_of_reads read split
      obtain ⟨nonempty, position_eq⟩ := placedFirst.head
      have later := ih placedSecond
      cases read with
      | blank blank => exact .blank blank later
      | odd notBlank notWord =>
          rw [Lexeme.first] at position_eq
          simp only [List.filterMap_cons, Lexeme.event?, position_eq]
          exact .odd notBlank notWord later
      | word isWord spelled =>
          rw [Lexeme.first] at position_eq
          simp only [List.filterMap_cons, Lexeme.event?, position_eq, spelled]
          exact .word nonempty isWord later

theorem spots_of_text {chars : List Char} (noZero : '\x00' ∉ chars) :
    Spots (byteOrderMark chars) (tokens (withoutByteOrderMark chars))
      (⟨encode chars, none⟩ : Source).events := by
  obtain ⟨found, reads, events, marks⟩ := exists_placed_lexemes noZero
  rw [events]
  refine spots_of_placed reads ?_
  rw [marks, Position.afterAll_eq, tokens, List.flatten_splitBy]
  exact placed_placeFrom ..

theorem not_word_singleton {char : Char} (notWord : isWordChar char = false) :
    ¬∀ letter ∈ [char], isWordChar letter = true := by
  intro isWord
  have isOne := isWord char List.mem_cons_self
  rw [notWord] at isOne
  cases isOne

namespace Spots

variable {before : List Char} {events : List Event}

theorem of_blank {char : Char} {rest : List (List Char)}
    (spots : Spots before ([char] :: rest) events) (blank : isBlankChar char = true) :
    Spots (before ++ [char]) rest events := by
  cases spots with
  | blank _ spots => exact spots
  | odd notBlank => exact absurd (blank.symm.trans notBlank) (by decide)
  | word _ isWord => exact (not_word_singleton (isWordChar_of_isBlankChar blank) isWord).elim

theorem of_odd {char : Char} {rest : List (List Char)}
    (spots : Spots before ([char] :: rest) events) (notBlank : isBlankChar char = false)
    (notWord : isWordChar char = false) :
    ∃ later, events = .odd (.behind before) char :: later ∧
      Spots (before ++ [char]) rest later := by
  cases spots with
  | blank blank => exact absurd (blank.symm.trans notBlank) (by decide)
  | odd _ _ spots => exact ⟨_, rfl, spots⟩
  | word _ isWord => exact (not_word_singleton notWord isWord).elim

theorem of_word {word : List Char} {rest : List (List Char)}
    (spots : Spots before (word :: rest) events) (isWord : ∀ char ∈ word, isWordChar char = true) :
    ∃ later, events = .word (.behind before) (encode word) :: later ∧
      Spots (before ++ word) rest later := by
  cases spots with
  | blank blank => exact (not_word_singleton (isWordChar_of_isBlankChar blank) isWord).elim
  | odd _ notWord => exact (not_word_singleton notWord isWord).elim
  | word _ _ spots => exact ⟨_, rfl, spots⟩

theorem of_append {front back : List (List Char)} (spots : Spots before (front ++ back) events) :
    ∃ first second, events = first ++ second ∧ Spots before front first ∧
      Spots (before ++ front.flatten) back second := by
  induction front generalizing before events with
  | nil => exact ⟨[], events, rfl, .done, by simpa using spots⟩
  | cons token front ih =>
      cases spots with
      | blank blank spots =>
          obtain ⟨first, second, rfl, spotsFirst, spotsSecond⟩ := ih spots
          exact ⟨first, second, rfl, .blank blank spotsFirst, by simpa using spotsSecond⟩
      | odd notBlank notWord spots =>
          obtain ⟨first, second, rfl, spotsFirst, spotsSecond⟩ := ih spots
          exact ⟨_ :: first, second, rfl, .odd notBlank notWord spotsFirst,
            by simpa using spotsSecond⟩
      | word nonempty isWord spots =>
          obtain ⟨first, second, rfl, spotsFirst, spotsSecond⟩ := ih spots
          exact ⟨_ :: first, second, rfl, .word nonempty isWord spotsFirst,
            by simpa using spotsSecond⟩

/-- Inside a comment nothing changes up to its end. -/
theorem foldl_inside {inside : List (List Char)} (spots : Spots before inside events)
    (ends : [')'] ∉ inside) {draft : Draft} {start : Position}
    (commented : draft.comment = some start) : events.foldl Draft.add draft = draft := by
  induction spots with
  | done => rfl
  | blank _ _ ih => exact ih fun present => ends (List.mem_cons_of_mem _ present)
  | odd _ _ _ ih =>
      rw [List.foldl_cons, Draft.add, commented]
      exact ih fun present => ends (List.mem_cons_of_mem _ present)
  | @word before word rest events _ _ _ ih =>
      have noEnd : encode word ≠ commentEnd := by
        intro same
        obtain rfl : word = [')'] := encode_injective same
        exact ends List.mem_cons_self
      rw [List.foldl_cons, Draft.add, commented]
      simp only [if_neg noEnd]
      exact ih fun present => ends (List.mem_cons_of_mem _ present)

end Spots

/-! ## Words that stand for nothing -/

/-- What is said about a word that stands for nothing.  Only the last star starts a count. -/
inductive Blames : (word message : Bytes) → Prop where
  | count {base count : Bytes} : star ∉ count →
      (¬∃ value, IsCount count value ∧ 1 ≤ value ∧ value < 2 ^ 63) →
        Blames (base ++ star :: count) (text "invalid repeat count: " ++ (base ++ star :: count))
  | large {base count : Bytes} {value : Nat} : IsCount count value → 2 ^ 24 < value →
      value < 2 ^ 63 →
        Blames (base ++ star :: count) (text "repeat count too large: " ++ (base ++ star :: count))
  | missing {count : Bytes} {value : Nat} : IsCount count value → 1 ≤ value → value ≤ 2 ^ 24 →
      Blames (star :: count) (text "missing instruction: " ++ star :: count)
  | repeated {base count : Bytes} {value : Nat} : IsCount count value → 1 ≤ value →
      value ≤ 2 ^ 24 → base ≠ [] → (¬∃ block, IsBlock base block) →
        Blames (base ++ star :: count) (text "unknown instruction: " ++ base)
  | once {word : Bytes} : star ∉ word → word ≠ [] → (¬∃ block, IsBlock word block) →
      Blames word (text "unknown instruction: " ++ word)

theorem compileBase_nil (word : Bytes) :
    compileBase word [] = .error (.missingInstruction word) := rfl

theorem compileBase_of_not_isBlock {base : Bytes} (word : Bytes) (nonempty : base ≠ [])
    (unknown : ¬∃ block, IsBlock base block) :
    compileBase word base = .error (.unknownInstruction base) := by
  cases found : compileBase word base with
  | ok block => exact (unknown ⟨block, compileBase_eq_ok_iff.mp found⟩).elim
  | error complaint =>
      rw [compileBase] at found
      split at found
      · cases found
      · rw [if_neg nonempty] at found
        split at found
        · cases found
        · exact found.symm

/-- With a count that can be used, a word is compiled as the block before its star. -/
theorem compileWord_of_isCount {count : Bytes} {value : Nat} (base : Bytes)
    (isCount : IsCount count value) (positive : 1 ≤ value) (small : value ≤ 2 ^ 24) :
    compileWord (base ++ star :: count) =
      (compileBase (base ++ star :: count) base).map fun block => ⟨block, value⟩ := by
  have read := countValue?_eq_some_iff.mpr ⟨isCount, positive, by omega⟩
  rw [compileWord, splitAtStar?_append isCount.star_notMem]
  simp only [read]
  exact if_neg (Nat.not_lt.mpr small)

theorem Blames.exists_complaint {word message : Bytes} (blames : Blames word message) :
    ∃ complaint, compileWord word = .error complaint ∧ complaint.message = message := by
  cases blames with
  | @count base count last unread =>
      refine ⟨.invalidCount _, ?_, rfl⟩
      have none : countValue? count = none := by
        rw [Option.eq_none_iff_forall_ne_some]
        intro value found
        exact unread ⟨value, countValue?_eq_some_iff.mp found⟩
      rw [compileWord, splitAtStar?_append last]
      simp only [none]
  | large isCount large fits =>
      refine ⟨.largeCount _, ?_, rfl⟩
      have read := countValue?_eq_some_iff.mpr ⟨isCount, by omega, fits⟩
      rw [compileWord, splitAtStar?_append isCount.star_notMem]
      simp only [read]
      exact if_pos large
  | missing isCount positive small =>
      refine ⟨.missingInstruction _, ?_, rfl⟩
      have compiled := compileWord_of_isCount [] isCount positive small
      rwa [compileBase_nil] at compiled
  | repeated isCount positive small nonempty unknown =>
      refine ⟨.unknownInstruction _, ?_, rfl⟩
      rw [compileWord_of_isCount _ isCount positive small,
        compileBase_of_not_isBlock _ nonempty unknown]
      rfl
  | once plain nonempty unknown =>
      refine ⟨.unknownInstruction _, ?_, rfl⟩
      rw [compileWord, splitAtStar?_eq_none_iff.mpr plain]
      simp only [compileBase_of_not_isBlock _ nonempty unknown]
      rfl

theorem exists_last_star {word : Bytes} (present : star ∈ word) :
    ∃ base count, word = base ++ star :: count ∧ star ∉ count := by
  obtain ⟨count, base, split, last⟩ :=
    List.eq_append_cons_of_mem (List.mem_reverse.mpr present)
  refine ⟨base.reverse, count.reverse, ?_, by simpa using last⟩
  simpa using congrArg List.reverse split

/-- A word stands for instructions, or there is something to say about it. -/
theorem denotes_or_blames {word : Bytes} (nonempty : word ≠ []) :
    (∃ code, Denotes word code) ∨ ∃ message, Blames word message := by
  by_cases starred : star ∈ word
  · obtain ⟨base, count, rfl, last⟩ := exists_last_star starred
    by_cases read : ∃ value, IsCount count value ∧ 1 ≤ value ∧ value < 2 ^ 63
    · obtain ⟨value, isCount, positive, fits⟩ := read
      rcases Nat.lt_or_ge (2 ^ 24) value with large | small
      · exact .inr ⟨_, .large isCount large fits⟩
      · by_cases known : ∃ block, IsBlock base block
        · obtain ⟨block, isBlock⟩ := known
          exact .inl ⟨_, .repeated isBlock isCount positive small⟩
        · cases base with
          | nil => exact .inr ⟨_, .missing isCount positive small⟩
          | cons byte rest =>
              exact .inr ⟨_, .repeated isCount positive small (List.cons_ne_nil _ _) known⟩
    · exact .inr ⟨_, .count last read⟩
  · by_cases known : ∃ block, IsBlock word block
    · obtain ⟨block, isBlock⟩ := known
      exact .inl ⟨_, .once isBlock⟩
    · exact .inr ⟨_, .once starred nonempty known⟩

/-! ## Faults of a source -/

/-- A line of a report about what stands behind some characters. -/
def entryBehind (file : Bytes) (before : List Char) (message : Bytes) : ReportEntry :=
  { file
    offset := (Position.behind before).offset
    line := (Position.behind before).line
    column := (Position.behind before).column
    message }

/-- Tokens that stand behind some characters, and all that is wrong with them. -/
inductive Faults (file : Bytes) :
    (before : List Char) → (source : List (List Char)) → (found : List ReportEntry) → Prop where
  | done {before : List Char} : Faults file before [] []
  | blank {before : List Char} {char : Char} {rest : List (List Char)} {found : List ReportEntry} :
      isBlankChar char = true → Faults file (before ++ [char]) rest found →
        Faults file before ([char] :: rest) found
  | odd {before : List Char} {char : Char} {rest : List (List Char)} {found : List ReportEntry} :
      isBlankChar char = false → isWordChar char = false →
        Faults file (before ++ [char]) rest found →
          Faults file before ([char] :: rest)
            (entryBehind file before (text "unexpected character " ++ quotedChar char) :: found)
  | comment {before : List Char} {inside rest : List (List Char)} {found : List ReportEntry} :
      [')'] ∉ inside → Faults file (before ++ (['('] ++ inside.flatten ++ [')'])) rest found →
        Faults file before (['('] :: (inside ++ [')'] :: rest)) found
  | unterminated {before : List Char} {inside : List (List Char)} :
      [')'] ∉ inside →
        Faults file before (['('] :: inside)
          [entryBehind file before (text "unterminated comment")]
  | fine {before word : List Char} {rest : List (List Char)} {found : List ReportEntry}
      {code : Bytes} :
      (∀ char ∈ word, isWordChar char = true) → Denotes (encode word) code →
        Faults file (before ++ word) rest found → Faults file before (word :: rest) found
  | wrong {before word : List Char} {rest : List (List Char)} {found : List ReportEntry}
      {message : Bytes} :
      (∀ char ∈ word, isWordChar char = true) → word ≠ ['('] → Blames (encode word) message →
        Faults file (before ++ word) rest found →
          Faults file before (word :: rest) (entryBehind file before message :: found)

/-- Tokens that start inside a comment, and all that is wrong with the ones behind it. -/
def FaultsInside (file : Bytes) (before : List Char) (source : List (List Char))
    (found : List ReportEntry) : Prop :=
  ∃ inside rest, source = inside ++ [')'] :: rest ∧ [')'] ∉ inside ∧
    Faults file (before ++ (inside.flatten ++ [')'])) rest found

namespace FaultsInside

variable {file : Bytes} {before token : List Char} {rest : List (List Char)}
  {found : List ReportEntry}

theorem of_end (faults : Faults file (before ++ [')']) rest found) :
    FaultsInside file before ([')'] :: rest) found :=
  ⟨[], rest, rfl, List.not_mem_nil, faults⟩

theorem cons (isOther : token ≠ [')']) (inner : FaultsInside file (before ++ token) rest found) :
    FaultsInside file before (token :: rest) found := by
  obtain ⟨inside, behind, rfl, ends, faults⟩ := inner
  refine ⟨token :: inside, behind, rfl, ?_, by simpa using faults⟩
  rw [List.mem_cons, not_or]
  exact ⟨isOther.symm, ends⟩

end FaultsInside

/-- Every source has a list of faults, read from inside a comment as well as from outside. -/
theorem exists_faults (file : Bytes) {before : List Char} {source : List (List Char)}
    {events : List Event} (spots : Spots before source events) :
    (∃ found, Faults file before source found) ∧
      ([')'] ∈ source → ∃ found, FaultsInside file before source found) := by
  induction spots with
  | done => exact ⟨⟨[], .done⟩, fun present => absurd present List.not_mem_nil⟩
  | @blank before char rest events blank _ ih =>
      obtain ⟨⟨found, faults⟩, inner⟩ := ih
      have isOther : [char] ≠ [')'] := by
        rintro ⟨⟩
        cases blank
      refine ⟨⟨found, .blank blank faults⟩, fun present => ?_⟩
      obtain ⟨found, inside⟩ := inner (List.mem_of_ne_of_mem isOther.symm present)
      exact ⟨found, inside.cons isOther⟩
  | @odd before char rest events notBlank notWord _ ih =>
      obtain ⟨⟨found, faults⟩, inner⟩ := ih
      have isOther : [char] ≠ [')'] := by
        rintro ⟨⟩
        exact absurd notWord (by decide)
      refine ⟨⟨_, .odd notBlank notWord faults⟩, fun present => ?_⟩
      obtain ⟨found, inside⟩ := inner (List.mem_of_ne_of_mem isOther.symm present)
      exact ⟨found, inside.cons isOther⟩
  | @word before word rest events nonempty isWord _ ih =>
      obtain ⟨⟨found, faults⟩, inner⟩ := ih
      constructor
      · by_cases starts : word = ['(']
        · subst starts
          by_cases ended : [')'] ∈ rest
          · obtain ⟨found, inside, behind, rfl, ends, faults⟩ := inner ended
            exact ⟨found, .comment ends (by simpa using faults)⟩
          · exact ⟨_, .unterminated ended⟩
        · have encoded : encode word ≠ [] := fun empty => nonempty (encode_injective empty)
          rcases denotes_or_blames encoded with ⟨code, denotes⟩ | ⟨message, blames⟩
          · exact ⟨found, .fine isWord denotes faults⟩
          · exact ⟨_, .wrong isWord starts blames faults⟩
      · intro present
        by_cases ends : word = [')']
        · subst ends
          exact ⟨found, .of_end faults⟩
        · obtain ⟨found, inside⟩ := inner (List.mem_of_ne_of_mem (Ne.symm ends) present)
          exact ⟨found, inside.cons ends⟩

namespace Draft

theorem map_entry_complain (file : Bytes) (draft : Draft) (before : List Char)
    (complaint : Complaint) :
    (draft.complain (.behind before) complaint).diagnostics.toList.map (·.entry file) =
      draft.diagnostics.toList.map (·.entry file) ++
        [entryBehind file before complaint.message] := by
  simp [complain, Diagnostic.entry, entryBehind]

theorem add_word_of_none {draft : Draft} (outside : draft.comment = none) (position : Position)
    (word : Bytes) : draft.add (.word position word) = draft.addWord position word := by
  simp only [add, outside]

end Draft

/-- What is wrong with a source is what assembling it complains about. -/
theorem Faults.allDiagnostics_eq {file : Bytes} {before : List Char} {source : List (List Char)}
    {found : List ReportEntry} (faults : Faults file before source found) {events : List Event}
    (spots : Spots before source events) (draft : Draft) (outside : draft.comment = none) :
    (events.foldl Draft.add draft).allDiagnostics.map (·.entry file) =
      draft.diagnostics.toList.map (·.entry file) ++ found := by
  induction faults generalizing events draft with
  | done =>
      cases spots
      simp [Draft.allDiagnostics, outside]
  | blank blank _ ih => exact ih (spots.of_blank blank) draft outside
  | @odd before char rest found notBlank notWord _ ih =>
      obtain ⟨later, rfl, spotsRest⟩ := spots.of_odd notBlank notWord
      have noted : draft.add (.odd (.behind before) char) =
          draft.complain (.behind before) (.unexpectedChar char) := by
        simp only [Draft.add, outside]
      rw [List.foldl_cons, noted, ih spotsRest (draft.complain _ _) outside,
        Draft.map_entry_complain, List.append_assoc]
      rfl
  | @comment before inside rest found ends _ ih =>
      obtain ⟨later, rfl, spotsRest⟩ := spots.of_word (List.all_eq_true.mp (by decide))
      obtain ⟨first, second, rfl, spotsInside, spotsBehind⟩ := spotsRest.of_append
      obtain ⟨later, rfl, spotsAfter⟩ := spotsBehind.of_word (List.all_eq_true.mp (by decide))
      rw [List.foldl_cons, Draft.add_word_of_none outside, List.foldl_append,
        spotsInside.foldl_inside ends rfl, List.foldl_cons]
      exact ih (by simpa using spotsAfter) { draft with comment := none } rfl
  | @unterminated before inside ends =>
      obtain ⟨later, rfl, spotsRest⟩ := spots.of_word (List.all_eq_true.mp (by decide))
      rw [List.foldl_cons, Draft.add_word_of_none outside, spotsRest.foldl_inside ends rfl,
        Draft.allDiagnostics, List.map_append]
      rfl
  | @fine before word rest found code isWord denotes _ ih =>
      obtain ⟨later, rfl, spotsRest⟩ := spots.of_word isWord
      have isCode : encode word ≠ commentStart := by
        intro same
        rw [same] at denotes
        exact not_denotes_commentStart _ denotes
      obtain ⟨expansion, compiled, -⟩ := denotes_iff_compileWord.mp denotes
      rw [List.foldl_cons, Draft.add_word_of_none outside, Draft.addWord, if_neg isCode, compiled]
      exact ih spotsRest _ outside
  | @wrong before word rest found message isWord isOther blames _ ih =>
      obtain ⟨later, rfl, spotsRest⟩ := spots.of_word isWord
      have isCode : encode word ≠ commentStart := fun same => isOther (encode_injective same)
      obtain ⟨complaint, refused, rfl⟩ := blames.exists_complaint
      rw [List.foldl_cons, Draft.add_word_of_none outside, Draft.addWord, if_neg isCode, refused]
      simp only
      rw [ih spotsRest (draft.complain _ _) outside, Draft.map_entry_complain, List.append_assoc]
      rfl

/-- Encoded text without the character zero is reported with the first ten of its faults, and
assembled if it has none; a byte order mark at its start counts in all places. -/
theorem assemble_reports_first_faults {chars : List Char} (noZero : '\x00' ∉ chars)
    (file : Bytes) :
    (∃! found, Faults file (byteOrderMark chars) (tokens (withoutByteOrderMark chars)) found) ∧
      ∀ found, Faults file (byteOrderMark chars) (tokens (withoutByteOrderMark chars)) found →
        (found = [] → ∃ program, assemble ⟨encode chars, none⟩ = .ok program) ∧
        (found ≠ [] → ∃ diagnostics, assemble ⟨encode chars, none⟩ = .error diagnostics ∧
          diagnostics.map (·.entry file) = found.take 10) := by
  have spots := spots_of_text noZero
  have complete {found : List ReportEntry}
      (faults : Faults file (byteOrderMark chars) (tokens (withoutByteOrderMark chars)) found) :=
    faults.allDiagnostics_eq spots .empty rfl
  constructor
  · obtain ⟨found, faults⟩ := (exists_faults file spots).1
    refine ⟨found, faults, fun other otherFaults => ?_⟩
    exact List.append_cancel_left ((complete otherFaults).symm.trans (complete faults))
  · intro found faults
    have reported := complete faults
    rw [show Draft.empty.diagnostics.toList = [] from rfl, List.map_nil, List.nil_append]
      at reported
    rw [assemble, ← reported]
    split
    · rename_i none
      exact ⟨fun _ => ⟨_, rfl⟩, fun some => absurd (by rw [none]; rfl) some⟩
    · rename_i some
      refine ⟨fun none => absurd (List.map_eq_nil_iff.mp none) some, fun _ => ⟨_, rfl, ?_⟩⟩
      exact List.map_take

/-- Behind a byte order mark: a bad count, an odd character, a lone count and an open comment. -/
theorem assemble_reports_four_faults :
    let chars := ['\ufeff', 'é', '*', '0', '\n', '\u200b', ' ', '*', '3', ' ', '(', ' ', 'x']
    '\x00' ∉ chars ∧
      ∃ diagnostics, assemble ⟨encode chars, none⟩ = .error diagnostics ∧
        diagnostics.map (·.entry (text "source")) =
          [⟨text "source", 3, 1, 2, text "invalid repeat count: é*0"⟩,
            ⟨text "source", 8, 2, 1, text "unexpected character '\\u200b'"⟩,
            ⟨text "source", 12, 2, 3, text "missing instruction: *3"⟩,
            ⟨text "source", 15, 2, 6, text "unterminated comment"⟩] := by
  intro chars
  have noZero : '\x00' ∉ chars := by decide
  have split : tokens (withoutByteOrderMark chars) =
      [['é', '*', '0'], ['\n'], ['\u200b'], [' '], ['*', '3'], [' '], ['('], [' '], ['x']] := by
    decide +kernel
  have unread : countValue? (text "0") = none := by decide
  have badCount : Blames (encode ['é', '*', '0']) (text "invalid repeat count: é*0") :=
    @Blames.count (text "é") (text "0") (by decide) fun ⟨value, isCount⟩ => by
      rw [countValue?_eq_some_iff.mpr isCount] at unread
      cases unread
  have loneCount : Blames (encode ['*', '3']) (text "missing instruction: *3") :=
    .missing (isCount_decimal 3) (by decide) (by decide)
  obtain ⟨-, reported⟩ := assemble_reports_first_faults noZero (text "source")
  rw [split] at reported
  obtain ⟨diagnostics, failed, entries⟩ := (reported _
    (.wrong (List.all_eq_true.mp (by decide)) (by decide) badCount
      (.blank (by decide) (.odd (by decide) (by decide +kernel) (.blank (by decide)
        (.wrong (List.all_eq_true.mp (by decide)) (by decide) loneCount
          (.blank (by decide) (.unterminated (by decide))))))))).2 (List.cons_ne_nil _ _)
  refine ⟨noZero, diagnostics, failed, entries.trans ?_⟩
  decide +kernel

/-- A byte order mark is neither blank nor part of a word, but at the start it is no fault. -/
theorem assemble_byte_order_mark :
    '\x00' ∉ ['\ufeff'] ∧
      Faults (text "source") [] (tokens ['\ufeff'])
        [⟨text "source", 0, 1, 1, text "unexpected character '\\ufeff'"⟩] ∧
      assemble ⟨encode ['\ufeff'], none⟩ = .ok [] := by
  have entry_eq : entryBehind (text "source") []
      (text "unexpected character " ++ quotedChar '\ufeff') =
        ⟨text "source", 0, 1, 1, text "unexpected character '\\ufeff'"⟩ := by
    decide +kernel
  refine ⟨by decide, ?_, by decide⟩
  rw [← entry_eq]
  exact .odd (by decide) (by decide +kernel) .done

end BitTape
