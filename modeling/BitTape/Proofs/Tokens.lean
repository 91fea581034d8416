import Mathlib.Data.List.SplitBy
import BitTape.Assembly.Scanner
import BitTape.Proofs.Encoding

/-!
# Tokens of a text

The tokens of a text are its words, which are the longest sequences of word characters, and its
other characters, each by itself.  The lexemes of a source that is an encoded text are its tokens,
together with their class.
-/

namespace BitTape

/-- The longest parts of a text in which neighbours are word characters. -/
def tokens (chars : List Char) : List (List Char) :=
  chars.splitBy fun first second => isWordChar first && isWordChar second

theorem tokens_cons_of_not_word {char : Char} (notWord : isWordChar char = false)
    (rest : List Char) : tokens (char :: rest) = [char] :: tokens rest := by
  have apart : ∀ last ∈ [char].getLast?, ∀ next ∈ rest.head?,
      (isWordChar last && isWordChar next) = false := by
    simp [notWord]
  exact List.splitBy_append apart

theorem tokens_word_append {word rest : List Char} (nonempty : word ≠ [])
    (isWord : ∀ char ∈ word, isWordChar char = true)
    (ends : ∀ next ∈ rest.head?, isWordChar next = false) :
    tokens (word ++ rest) = word :: tokens rest := by
  have apart : ∀ last ∈ word.getLast?, ∀ next ∈ rest.head?,
      (isWordChar last && isWordChar next) = false := by
    intro last _ next isNext
    rw [ends next isNext, Bool.and_false]
  have chained : word.IsChain fun first second =>
      (isWordChar first && isWordChar second) = true := by
    rw [List.isChain_iff_getElem]
    intro index inside
    rw [isWord _ (List.getElem_mem _), isWord _ (List.getElem_mem _)]
    rfl
  rw [tokens, List.splitBy_append apart, List.splitBy_of_isChain nonempty chained]
  rfl

theorem isWordChar_of_isBlankChar {char : Char} (blank : isBlankChar char = true) :
    isWordChar char = false := by
  have codes : char.toNat = 9 ∨ char.toNat = 10 ∨ char.toNat = 13 ∨ char.toNat = 32 := by
    simpa [isBlankChar] using blank
  rw [isWordChar]
  rcases codes with code | code | code | code <;> rw [code] <;> decide

/-- A lexeme and the token that it is. -/
inductive Lexeme.Reads : Lexeme → List Char → Prop where
  | blank {mark : Mark} {char : Char} :
      isBlankChar char = true → Reads (.blank mark) [char]
  | odd {mark : Mark} {char : Char} :
      isBlankChar char = false → isWordChar char = false → Reads (.odd mark char) [char]
  | word {first : Mark} {others : List Mark} {word : List Char} :
      (∀ char ∈ word, isWordChar char = true) →
        ((first :: others).flatMap fun mark => mark.glyph.bytes) = encode word →
          Reads (.word first others) word

namespace Mark

theorem outsider?_of_glyph {mark : Mark} {char : Char} (glyph_eq : mark.glyph = .char char) :
    mark.outsider? = if isWordChar char then none else some char := by
  simp [outsider?, glyph_eq]

theorem isWord_of_glyph {mark : Mark} {char : Char} (glyph_eq : mark.glyph = .char char) :
    mark.isWord = isWordChar char := by
  rw [isWord, outsider?_of_glyph glyph_eq]
  cases isWordChar char <;> rfl

theorem isBlank_of_glyph {mark : Mark} {char : Char} (glyph_eq : mark.glyph = .char char)
    (inner : mark.glyph = .char '\ufeff' → mark.position.offset ≠ 0) :
    mark.isBlank = isBlankChar char := by
  have unmarked : (char.toNat == 0xfeff && mark.position.offset == 0) = false := by
    rw [Bool.and_eq_false_imp, beq_iff_eq, beq_eq_false_iff_ne]
    intro code
    obtain rfl : char = '\ufeff' := Char.toNat_inj.mp code
    exact inner glyph_eq
  simp [isBlank, glyph_eq, unmarked]

theorem flatMap_bytes_of_glyphs {marks : List Mark} {chars : List Char}
    (spelled : marks.map glyph = chars.map .char) :
    (marks.flatMap fun mark => mark.glyph.bytes) = encode chars := by
  rw [← List.flatMap_map glyph Glyph.bytes, spelled, List.flatMap_map]
  rfl

end Mark

theorem lexemes_cons (mark : Mark) (rest : List Mark) :
    lexemes (mark :: rest) =
      (Lexeme.cut mark rest).1 :: lexemes (rest.drop (Lexeme.cut mark rest).2) :=
  pieces_cons ..

private theorem exists_word_front {marks : List Mark} {chars : List Char}
    (spelled : marks.map Mark.glyph = chars.map .char) :
    ∃ front back, chars = front ++ back ∧
      (marks.takeWhile Mark.isWord).map Mark.glyph = front.map .char ∧
      (marks.dropWhile Mark.isWord).map Mark.glyph = back.map .char ∧
      (∀ char ∈ front, isWordChar char = true) ∧
      ∀ next ∈ back.head?, isWordChar next = false := by
  induction marks generalizing chars with
  | nil =>
      obtain rfl : chars = [] := by simpa using spelled.symm
      exact ⟨[], [], by simp⟩
  | cons mark rest ih =>
      cases chars with
      | nil => simp at spelled
      | cons char others =>
          simp only [List.map_cons, List.cons.injEq] at spelled
          obtain ⟨glyph_eq, spelled⟩ := spelled
          have isWord := Mark.isWord_of_glyph glyph_eq
          cases word : isWordChar char with
          | false =>
              rw [word] at isWord
              exact ⟨[], char :: others, by simp [isWord, glyph_eq, spelled, word]⟩
          | true =>
              rw [word] at isWord
              obtain ⟨front, back, rfl, taken, dropped, inside, ends⟩ := ih spelled
              exact ⟨char :: front, back, by simp_all⟩

/-- The lexemes of a text are its tokens. -/
theorem lexemes_read {marks : List Mark} {chars : List Char}
    (spelled : marks.map Mark.glyph = chars.map .char)
    (inner : ∀ mark ∈ marks, mark.glyph = .char '\ufeff' → mark.position.offset ≠ 0) :
    List.Forall₂ Lexeme.Reads (lexemes marks) (tokens chars) := by
  induction length_eq : marks.length using Nat.strongRecOn generalizing marks chars with
  | ind length ih =>
      cases marks with
      | nil =>
          obtain rfl : chars = [] := by simpa using spelled.symm
          exact .nil
      | cons mark rest =>
          cases chars with
          | nil => simp at spelled
          | cons char others =>
              simp only [List.map_cons, List.cons.injEq] at spelled
              obtain ⟨glyph_eq, spelled⟩ := spelled
              have isBlank := Mark.isBlank_of_glyph glyph_eq (inner mark List.mem_cons_self)
              have outsider := Mark.outsider?_of_glyph glyph_eq
              have innerRest : ∀ other ∈ rest, other.glyph = .char '\ufeff' →
                  other.position.offset ≠ 0 :=
                fun other isRest => inner other (List.mem_cons_of_mem mark isRest)
              have shorter : rest.length < length := by
                rw [← length_eq, List.length_cons]
                omega
              rw [lexemes_cons]
              cases blank : isBlankChar char with
              | true =>
                  rw [tokens_cons_of_not_word (isWordChar_of_isBlankChar blank)]
                  simp only [Lexeme.cut, isBlank, blank, if_true, List.drop_zero]
                  exact .cons (.blank blank) (ih _ shorter spelled innerRest rfl)
              | false =>
                  cases word : isWordChar char with
                  | false =>
                      rw [tokens_cons_of_not_word word]
                      simp only [Lexeme.cut, isBlank, blank, outsider, word, Bool.false_eq_true,
                        if_false, List.drop_zero]
                      exact .cons (.odd blank word) (ih _ shorter spelled innerRest rfl)
                  | true =>
                      obtain ⟨front, back, rfl, taken, dropped, inside, ends⟩ :=
                        exists_word_front spelled
                      have isWord : ∀ letter ∈ char :: front, isWordChar letter = true := by
                        simpa using ⟨word, inside⟩
                      have behind : rest.drop (rest.takeWhile Mark.isWord).length =
                          rest.dropWhile Mark.isWord := by
                        have split := List.takeWhile_append_dropWhile (p := Mark.isWord) (l := rest)
                        exact (congrArg (List.drop _) split.symm).trans List.drop_left
                      rw [← List.cons_append, tokens_word_append (by simp) isWord ends]
                      simp only [Lexeme.cut, isBlank, blank, outsider, word, Bool.false_eq_true,
                        if_false, if_true, behind]
                      refine .cons (.word isWord ?_) (ih _ ?_ dropped ?_ rfl)
                      · exact Mark.flatMap_bytes_of_glyphs (by simp [glyph_eq, taken])
                      · exact Nat.lt_of_le_of_lt (List.dropWhile_sublist _).length_le shorter
                      · intro other isRest
                        exact innerRest other ((List.dropWhile_sublist _).subset isRest)

end BitTape
