import BitTape.Proofs.Alarms
import BitTape.Proofs.Words

/-!
# The language of sources

A source is a sequence of tokens: blanks, words and comments, which start at the word `(` and end at
the next word `)`.  `Assembles` relates the tokens of a source to its program, which joins what the
words outside comments stand for.  Exactly the sources of this language are assembled.
-/

namespace BitTape

/-- Tokens, and the instructions that they stand for. -/
inductive Assembles : (source : List (List Char)) → (program : Bytes) → Prop where
  | done : Assembles [] []
  | blank {char : Char} {rest : List (List Char)} {program : Bytes} :
      isBlankChar char = true → Assembles rest program → Assembles ([char] :: rest) program
  | comment {inside rest : List (List Char)} {program : Bytes} :
      [')'] ∉ inside → Assembles rest program →
        Assembles (['('] :: (inside ++ [')'] :: rest)) program
  | word {word : List Char} {rest : List (List Char)} {code program : Bytes} :
      (∀ char ∈ word, isWordChar char = true) → Denotes (encode word) code →
        Assembles rest program → Assembles (word :: rest) (code ++ program)

/-- Tokens that start inside a comment, and the instructions that the ones behind it stand for. -/
def AssemblesInside (source : List (List Char)) (program : Bytes) : Prop :=
  ∃ inside rest, source = inside ++ [')'] :: rest ∧ [')'] ∉ inside ∧ Assembles rest program

/-! ## The first token -/

theorem not_denotes_commentStart (code : Bytes) : ¬ Denotes commentStart code := by
  rw [denotes_iff_compileWord]
  rintro ⟨expansion, compiled, -⟩
  rw [compileWord_commentStart] at compiled
  cases compiled

section First

variable {char : Char} {token : List Char} {rest : List (List Char)} {program : Bytes}

theorem assembles_nil_iff : Assembles [] program ↔ program = [] := by
  constructor
  · rintro ⟨⟩
    rfl
  · rintro rfl
    exact .done

theorem assembles_blank_iff (blank : isBlankChar char = true) :
    Assembles ([char] :: rest) program ↔ Assembles rest program := by
  constructor
  · intro assembled
    cases assembled with
    | blank _ assembled => exact assembled
    | comment => cases blank
    | word isWord =>
        have isOne := isWord char List.mem_cons_self
        rw [isWordChar_of_isBlankChar blank] at isOne
        cases isOne
  · exact .blank blank

theorem not_assembles_odd (notBlank : isBlankChar char = false)
    (notWord : isWordChar char = false) : ¬ Assembles ([char] :: rest) program := by
  intro assembled
  cases assembled with
  | blank blank => exact absurd (blank.symm.trans notBlank) (by decide)
  | comment => exact absurd notWord (by decide)
  | word isWord => exact absurd ((isWord char List.mem_cons_self).symm.trans notWord) (by decide)

theorem assembles_comment_iff :
    Assembles (['('] :: rest) program ↔ AssemblesInside rest program := by
  constructor
  · intro assembled
    cases assembled with
    | blank blank => exact absurd blank (by decide)
    | comment ends assembled => exact ⟨_, _, rfl, ends, assembled⟩
    | word _ denotes => exact (not_denotes_commentStart _ denotes).elim
  · rintro ⟨inside, behind, rfl, ends, assembled⟩
    exact .comment ends assembled

theorem assembles_word_iff (isWord : ∀ char ∈ token, isWordChar char = true)
    (isCode : token ≠ ['(']) :
    Assembles (token :: rest) program ↔
      ∃ code behind, Denotes (encode token) code ∧ Assembles rest behind ∧
        code ++ behind = program := by
  constructor
  · intro assembled
    cases assembled with
    | blank blank =>
        have isOne := isWord _ List.mem_cons_self
        rw [isWordChar_of_isBlankChar blank] at isOne
        cases isOne
    | comment => exact (isCode rfl).elim
    | word _ denotes assembled => exact ⟨_, _, denotes, assembled, rfl⟩
  · rintro ⟨code, behind, denotes, assembled, rfl⟩
    exact .word isWord denotes assembled

theorem not_assemblesInside_nil : ¬ AssemblesInside [] program := by
  rintro ⟨inside, rest, empty, -⟩
  simp at empty

theorem assemblesInside_end_iff :
    AssemblesInside ([')'] :: rest) program ↔ Assembles rest program := by
  constructor
  · rintro ⟨inside, behind, split, ends, assembled⟩
    cases inside with
    | nil =>
        obtain rfl := (List.cons.inj split).2
        exact assembled
    | cons first others =>
        obtain rfl := (List.cons.inj split).1
        exact (ends List.mem_cons_self).elim
  · intro assembled
    exact ⟨[], rest, rfl, List.not_mem_nil, assembled⟩

theorem assemblesInside_cons_iff (inside : token ≠ [')']) :
    AssemblesInside (token :: rest) program ↔ AssemblesInside rest program := by
  constructor
  · rintro ⟨front, behind, split, ends, assembled⟩
    cases front with
    | nil => exact (inside (List.cons.inj split).1).elim
    | cons first others =>
        exact ⟨others, behind, (List.cons.inj split).2,
          fun present => ends (List.mem_cons_of_mem _ present), assembled⟩
  · rintro ⟨front, behind, rfl, ends, assembled⟩
    refine ⟨token :: front, behind, rfl, ?_, assembled⟩
    rw [List.mem_cons, not_or]
    exact ⟨inside.symm, ends⟩

end First

/-! ## Surveys -/

theorem survey_word_iff {position : Position} {word program : Bytes} {rest : List Event}
    (isCode : word ≠ commentStart) :
    survey false (.word position word :: rest) = ([], program) ↔
      ∃ code behind, Denotes word code ∧ survey false rest = ([], behind) ∧
        code ++ behind = program := by
  simp only [survey, isCode, if_false, denotes_iff_compileWord]
  cases compileWord word with
  | error complaint => simp
  | ok expansion =>
      constructor
      · intro found
        obtain ⟨none, rfl⟩ := Prod.mk.inj found
        exact ⟨_, _, ⟨expansion, rfl, rfl⟩, Prod.ext none rfl, rfl⟩
      · rintro ⟨_, behind, ⟨_, ⟨⟩, rfl⟩, found, rfl⟩
        simp only [found]

/-- The survey of a source has no complaint exactly if its tokens are in the language. -/
theorem survey_iff_assembles {found : List Lexeme} {source : List (List Char)}
    (reads : List.Forall₂ Lexeme.Reads found source) (program : Bytes) :
    (survey false (found.filterMap Lexeme.event?) = ([], program) ↔ Assembles source program) ∧
      (survey true (found.filterMap Lexeme.event?) = ([], program) ↔
        AssemblesInside source program) := by
  induction reads generalizing program with
  | nil =>
      simp only [List.filterMap_nil, survey, assembles_nil_iff, not_assemblesInside_nil]
      simp [eq_comm]
  | @cons lexeme token found source read reads ih =>
      obtain ⟨outer, inner⟩ := ih program
      cases read with
      | @blank mark char blank =>
          have inside : [char] ≠ [')'] := by
            rintro ⟨⟩
            cases blank
          rw [assembles_blank_iff blank, assemblesInside_cons_iff inside]
          exact ⟨outer, inner⟩
      | @odd mark char notBlank notWord =>
          have inside : [char] ≠ [')'] := by
            rintro ⟨⟩
            exact absurd notWord (by decide)
          rw [assemblesInside_cons_iff inside]
          refine ⟨?_, inner⟩
          simp [Lexeme.event?, survey, not_assembles_odd notBlank notWord]
      | word isWord spelled =>
          simp only [List.filterMap_cons, Lexeme.event?, spelled]
          constructor
          · by_cases starts : token = ['(']
            · subst starts
              exact inner.trans assembles_comment_iff.symm
            · have isCode : encode token ≠ commentStart :=
                fun same => starts (encode_injective same)
              rw [survey_word_iff isCode, assembles_word_iff isWord starts]
              simp only [(ih _).1]
          · by_cases ends : token = [')']
            · subst ends
              exact outer.trans assemblesInside_end_iff.symm
            · have inside : encode token ≠ commentEnd :=
                fun same => ends (encode_injective same)
              rw [assemblesInside_cons_iff ends]
              simp only [survey, inside, if_false]
              exact inner

/-- Exactly the sources of the language are assembled, and to the programs that they stand for. -/
theorem assemble_eq_ok_iff_assembles (bytes program : Bytes) :
    assemble ⟨bytes, none⟩ = .ok program ↔
      ∃ chars, bytes = encode chars ∧ '\x00' ∉ chars ∧
        Assembles (tokens (withoutByteOrderMark chars)) program := by
  constructor
  · intro assembled
    obtain ⟨chars, rfl, noZero⟩ := exists_text_of_assemble assembled
    obtain ⟨found, reads, events⟩ := exists_lexemes_of_text noZero
    rw [assemble_eq_ok_iff, events] at assembled
    exact ⟨chars, rfl, noZero, (survey_iff_assembles reads program).1.mp assembled⟩
  · rintro ⟨chars, rfl, noZero, assembled⟩
    obtain ⟨found, reads, events⟩ := exists_lexemes_of_text noZero
    rw [assemble_eq_ok_iff, events]
    exact (survey_iff_assembles reads program).1.mpr assembled

end BitTape
