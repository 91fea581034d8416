import BitTape.Proofs.Alarms
import BitTape.Proofs.Runs
import BitTape.Proofs.Words

/-!
# Assembling what was spelled

A program that is spelled piece by piece is an assembly source, with a word for every run.  That
source is assembled to the program without its comments, unless a run is longer than the largest
repeat count; then there is one complaint for every such run, up to the limit of the report.
-/

namespace BitTape

/-! ## Words for runs -/

theorem isWordChar_of_isDigit {char : Char} (isDigit : char.isDigit = true) :
    isWordChar char = true := by
  obtain ⟨low, high⟩ := toNat_of_isDigit isDigit
  have each : ∀ code < 58, 48 ≤ code →
      [letterRanges, symbolRanges, punctuationRanges, decimalDigitRanges].any (inRanges code) =
        true := by
    decide
  exact each char.toNat (Nat.lt_succ_of_le high) low

theorem isWordChar_star : isWordChar '*' = true := by decide

theorem isWordChar_space : isWordChar ' ' = false := by decide

theorem isWordChar_byteOrderMark : isWordChar '\ufeff' = false := by decide +kernel

theorem Instruction.exists_letters (instruction : Instruction) :
    ∃ letters : List Char, letters ≠ [] ∧ letters.all isWordChar = true ∧
      encode letters = instruction.mnemonic := by
  cases instruction
  · exact ⟨['f', 'l', 'i', 'p'], List.cons_ne_nil _ _, by decide, rfl⟩
  · exact ⟨['r', 'e', 'a', 'd'], List.cons_ne_nil _ _, by decide, rfl⟩
  · exact ⟨['w', 'r', 'i', 't', 'e'], List.cons_ne_nil _ _, by decide, rfl⟩
  · exact ⟨['l', 'e', 'f', 't'], List.cons_ne_nil _ _, by decide, rfl⟩
  · exact ⟨['r', 'i', 'g', 'h', 't'], List.cons_ne_nil _ _, by decide, rfl⟩
  · exact ⟨['l', 'o', 'o', 'p'], List.cons_ne_nil _ _, by decide, rfl⟩
  · exact ⟨['e', 'n', 'd'], List.cons_ne_nil _ _, by decide, rfl⟩

theorem exists_digits_of_decimal (number : Nat) :
    ∃ digits : List Char, (∀ digit ∈ digits, isWordChar digit = true) ∧
      encode digits = decimal number := by
  have isDigit : ∀ digit ∈ Nat.toDigits 10 number, digit.isDigit = true :=
    fun digit present => Nat.isDigit_of_mem_toDigits (by decide) (by decide) present
  refine ⟨Nat.toDigits 10 number, ?_, encode_of_small ?_⟩
  · exact fun digit present => isWordChar_of_isDigit (isDigit digit present)
  · intro digit present
    have bounds := toNat_of_isDigit (isDigit digit present)
    omega

/-- A word that stands for a run, unless the run is too long. -/
structure Names (word : List Char) (run : Bytes) : Prop where
  nonempty : word ≠ []
  isWord : ∀ char ∈ word, isWordChar char = true
  compiled : ∃ expansion : Expansion, expansion.code = run ∧
    compileWord (encode word) =
      if maxRepeat < run.length then .error (.largeCount (encode word)) else .ok expansion

/-- The text of a run is a word for it. -/
theorem Run.exists_names {run : Run} (positive : 1 ≤ run.length) (fits : run.length < 2 ^ 63) :
    ∃ word, encode word = run.chunks.flatten ∧
      Names word (List.replicate run.length run.instruction.symbol) := by
  obtain ⟨start, instruction, length⟩ := run
  obtain ⟨letters, nonempty, areLetters, spelled⟩ := instruction.exists_letters
  have isWord : ∀ letter ∈ letters, isWordChar letter = true := List.all_eq_true.mp areLetters
  have isBlock : IsBlock (encode letters) [instruction.symbol] :=
    .name instruction (.inl spelled.symm)
  by_cases single : length = 1
  · subst single
    refine ⟨letters, by simp [chunks, spelled], nonempty, isWord, _, ?_, compileWord_once isBlock⟩
    rfl
  · obtain ⟨digits, areDigits, value⟩ := exists_digits_of_decimal length
    have whole : encode (letters ++ '*' :: digits) = encode letters ++ star :: decimal length := by
      rw [encode_append, encode_cons, value]
      rfl
    refine ⟨letters ++ '*' :: digits, ?_, by simp, ?_, ⟨[instruction.symbol], length⟩, ?_, ?_⟩
    · have several : 1 < length := by
        have atLeast : 1 ≤ length := positive
        omega
      rw [whole, spelled, chunks, if_pos several]
      simp only [List.flatten_cons, List.flatten_nil, List.append_nil]
      rfl
    · intro char present
      rcases List.mem_append.mp present with inLetters | behind
      · exact isWord char inLetters
      · rcases List.mem_cons.mp behind with rfl | inDigits
        · exact isWordChar_star
        · exact areDigits char inDigits
    · rw [Expansion.code, List.flatten_replicate_singleton]
    · rw [whole, compileWord_repeated isBlock (isCount_decimal length) positive fits,
        List.length_replicate]

/-! ## Sources for runs -/

/-- A text with a word for each run and a space behind it, and perhaps one more space. -/
inductive Spells : (runs : List Bytes) → (source : List Char) → Prop where
  | done : Spells [] []
  | gap : Spells [] [' ']
  | run {word source : List Char} {run : Bytes} {runs : List Bytes} :
      Names word run → Spells runs source → Spells (run :: runs) (word ++ ' ' :: source)

namespace Spells

variable {runs : List Bytes} {source : List Char}

theorem zero_notMem (spells : Spells runs source) : '\x00' ∉ source := by
  induction spells with
  | done => decide
  | gap => decide
  | run names _ ih =>
      rw [List.mem_append, List.mem_cons, not_or, not_or]
      refine ⟨fun present => ?_, by decide, ih⟩
      exact absurd (names.isWord _ present) (by decide)

theorem withoutByteOrderMark_eq (spells : Spells runs source) :
    withoutByteOrderMark source = source := by
  have unmarked : source.head? ≠ some '\ufeff' := by
    cases spells with
    | done => decide
    | gap => decide
    | @run word _ _ _ names _ =>
        intro marked
        cases word with
        | nil => exact names.nonempty rfl
        | cons first others =>
            obtain rfl := Option.some.inj marked
            have isOne := names.isWord _ List.mem_cons_self
            rw [isWordChar_byteOrderMark] at isOne
            cases isOne
  rw [withoutByteOrderMark, if_neg unmarked]

end Spells

/-- The text of a walk is a source for the runs that it comes upon. -/
theorem Walks.exists_spells {program : Bytes} {position : Nat} {found : List (Nat × Bytes)}
    (walks : Walks program position found) (fits : program.length < 2 ^ 63) :
    ∃ source, (found.flatMap fun (_, piece) => piece ++ text " ") = encode source ∧
      Spells (instructionRuns (program.drop position)) source := by
  induction walks with
  | stop outside =>
      rw [List.drop_eq_nil_of_le outside]
      exact ⟨[], rfl, .done⟩
  | @step position next chunks found inside piece walks ih =>
      obtain ⟨ending, none⟩ | ⟨run, here, positive, forward, bound, first⟩ :=
        pieceAt_cases program position
      · obtain ⟨rfl, rfl⟩ := Prod.mk.inj (piece.symm.trans ending)
        cases walks with
        | stop => exact ⟨[' '], rfl, none ▸ .gap⟩
        | step inside => exact (Nat.lt_irrefl _ inside).elim
      · obtain ⟨rfl, rfl⟩ := Prod.mk.inj (piece.symm.trans here)
        have short : run.length < 2 ^ 63 := by
          rw [Run.stop] at bound
          omega
        obtain ⟨word, spelled, names⟩ := Run.exists_names positive short
        obtain ⟨source, others, spells⟩ := ih
        refine ⟨word ++ ' ' :: source, ?_, first ▸ .run names spells⟩
        rw [List.flatMap_cons, others, encode_append, spelled, encode_cons, List.append_assoc]
        rfl

/-! ## Surveys -/

theorem Lexeme.Reads.event?_of_word {lexeme : Lexeme} {word : List Char}
    (reads : lexeme.Reads word) (isWord : ∀ char ∈ word, isWordChar char = true) :
    ∃ position, lexeme.event? = some (.word position (encode word)) := by
  cases reads with
  | blank blank =>
      have isOne := isWord _ List.mem_cons_self
      rw [isWordChar_of_isBlankChar blank] at isOne
      cases isOne
  | odd _ notWord => exact absurd ((isWord _ List.mem_cons_self).symm.trans notWord) (by decide)
  | word _ spelled => exact ⟨_, by rw [Lexeme.event?, spelled]⟩

theorem Lexeme.Reads.event?_of_space {lexeme : Lexeme} (reads : lexeme.Reads [' ']) :
    lexeme.event? = none := by
  cases reads with
  | blank => rfl
  | odd notBlank => cases notBlank
  | word isWord =>
      have isOne := isWord ' ' List.mem_cons_self
      rw [isWordChar_space] at isOne
      cases isOne

/-- A run that no word can stand for. -/
def isLong (run : Bytes) : Bool :=
  maxRepeat < run.length

/-- The survey of a source for runs complains about the long ones and collects the others. -/
theorem Spells.exists_survey {runs : List Bytes} {source : List Char}
    (spells : Spells runs source) {found : List Lexeme}
    (reads : List.Forall₂ Lexeme.Reads found (tokens source)) :
    ∃ words : List Bytes, words.length = runs.countP isLong ∧
      survey false (found.filterMap Lexeme.event?) =
        (words.map .largeCount, (runs.filter (!isLong ·)).flatten) := by
  induction spells generalizing found with
  | done =>
      cases reads
      exact ⟨[], rfl, rfl⟩
  | gap =>
      obtain _ | ⟨space, none⟩ := reads
      cases none
      refine ⟨[], rfl, ?_⟩
      rw [List.filterMap_cons, space.event?_of_space]
      rfl
  | @run word source run runs names _ ih =>
      have split : tokens (word ++ ' ' :: source) = word :: [' '] :: tokens source := by
        rw [tokens_word_append names.nonempty names.isWord (by simpa using isWordChar_space),
          tokens_cons_of_not_word isWordChar_space]
      rw [split] at reads
      obtain _ | ⟨first, others⟩ := reads
      obtain _ | ⟨space, others⟩ := others
      obtain ⟨position, isWord⟩ := first.event?_of_word names.isWord
      obtain ⟨words, count, surveyed⟩ := ih others
      obtain ⟨expansion, rfl, compiled⟩ := names.compiled
      have isCode : encode word ≠ commentStart := by
        intro same
        rw [same, compileWord_commentStart] at compiled
        split at compiled <;> cases compiled
      simp only [List.filterMap_cons, isWord, space.event?_of_space, survey, isCode, if_false,
        compiled, surveyed]
      by_cases long : maxRepeat < expansion.code.length
      · have isLong : isLong expansion.code = true := decide_eq_true long
        refine ⟨encode word :: words, ?_, ?_⟩
        · rw [List.length_cons, count, List.countP_cons_of_pos isLong]
        · simp only [long, if_true, List.filter_cons, isLong]
          rfl
      · have isShort : (!isLong expansion.code) = true := by
          simpa [isLong] using long
        refine ⟨words, ?_, ?_⟩
        · rw [count, List.countP_cons_of_neg (by simpa using isShort)]
        · simp only [long, if_false, List.filter_cons, isShort, if_true, List.flatten_cons]

theorem exists_survey_spelled {program : Bytes} (fits : program.length < 2 ^ 63) :
    ∃ words : List Bytes, words.length = (instructionRuns program).countP isLong ∧
      survey false (⟨spelled program, none⟩ : Source).events =
        (words.map .largeCount, ((instructionRuns program).filter (!isLong ·)).flatten) := by
  have walks : Walks program 0 (spelling program) := walks_spellingFrom (Nat.le_add_left _ _)
  obtain ⟨source, spelled_eq, spells⟩ := walks.exists_spells fits
  rw [← spelled] at spelled_eq
  rw [List.drop_zero] at spells
  obtain ⟨found, reads, events⟩ := exists_lexemes_of_text spells.zero_notMem
  rw [spells.withoutByteOrderMark_eq] at reads
  rw [spelled_eq, events]
  exact spells.exists_survey reads

/-! ## The round trip -/

/-- Assembling what was spelled yields the program without its comments. -/
theorem assemble_spelled (program : Bytes) (fits : program.length < 2 ^ 63) :
    Walks program 0 (spelling program) ∧
      (assemble ⟨spelled program, none⟩ = .ok (strip program) ↔
        ∀ run ∈ instructionRuns program, run.length ≤ 2 ^ 24) ∧
      ((∃ run ∈ instructionRuns program, 2 ^ 24 < run.length) →
        ∃ diagnostics, assemble ⟨spelled program, none⟩ = .error diagnostics ∧
          diagnostics.length =
            min 10 ((instructionRuns program).countP fun run => 2 ^ 24 < run.length) ∧
          ∀ diagnostic ∈ diagnostics, ∃ word, diagnostic.complaint = .largeCount word) := by
  obtain ⟨words, count, surveyed⟩ := exists_survey_spelled fits
  refine ⟨walks_spellingFrom (Nat.le_add_left _ _), ?_, ?_⟩
  · rw [assemble_eq_ok_iff, surveyed, Prod.mk.injEq, List.map_eq_nil_iff,
      ← List.length_eq_zero_iff, count, List.countP_eq_zero]
    constructor
    · rintro ⟨allShort, -⟩ run isRun
      exact Nat.not_lt.mp fun long => allShort run isRun (decide_eq_true long)
    · intro allShort
      have noneLong : ∀ run ∈ instructionRuns program, isLong run = false :=
        fun run isRun => decide_eq_false (Nat.not_lt.mpr (allShort run isRun))
      refine ⟨fun run isRun => by simp [noneLong run isRun], ?_⟩
      rw [List.filter_eq_self.mpr fun run isRun => by simp [noneLong run isRun],
        flatten_instructionRuns]
  · rintro ⟨run, isRun, long⟩
    have some : 0 < (instructionRuns program).countP isLong :=
      List.countP_pos_iff.mpr ⟨run, isRun, decide_eq_true long⟩
    have complains : (survey false (⟨spelled program, none⟩ : Source).events).1 ≠ [] := by
      rw [surveyed, ne_eq, List.map_eq_nil_iff, ← List.length_eq_zero_iff, count]
      omega
    obtain ⟨diagnostics, failed, complaints⟩ := exists_diagnostics_of_survey complains
    rw [surveyed, ← List.map_take] at complaints
    refine ⟨diagnostics, failed, ?_, ?_⟩
    · have lengths := congrArg List.length complaints
      rw [List.length_map, List.length_map, List.length_take, count] at lengths
      exact lengths
    · intro diagnostic isOne
      have reported := List.mem_map_of_mem (f := Diagnostic.complaint) isOne
      rw [complaints] at reported
      obtain ⟨word, -, same⟩ := List.mem_map.mp reported
      exact ⟨word, same.symm⟩

/-- A run at the limit and one beyond it, each before a comment. -/
theorem assemble_spelled_at_limit :
    assemble ⟨spelled (List.replicate (2 ^ 24) (ascii '+') ++ [ascii '#']), none⟩ =
        .ok (List.replicate (2 ^ 24) (ascii '+')) ∧
      ∃ diagnostics,
        assemble ⟨spelled (List.replicate (2 ^ 24 + 1) (ascii '+') ++ [ascii '#']), none⟩ =
          .error diagnostics ∧ diagnostics.length = 1 := by
  have fits (length : Nat) (small : length ≤ 2 ^ 24 + 1) :
      (List.replicate length (ascii '+') ++ [ascii '#']).length < 2 ^ 63 := by
    rw [List.length_append, List.length_replicate, List.length_singleton]
    omega
  have ends : ∀ next ∈ [ascii '#'].head?, next ≠ ascii '+' := by
    rintro _ ⟨⟩
    decide
  have found (length : Nat) (positive : length ≠ 0) :
      instructionRuns (List.replicate length (ascii '+') ++ [ascii '#']) =
        [List.replicate length (ascii '+')] := by
    obtain ⟨more, rfl⟩ := Nat.exists_eq_succ_of_ne_zero positive
    rw [instructionRuns_replicate_append ends]
    rfl
  constructor
  · obtain ⟨-, accepted, -⟩ := assemble_spelled _ (fits (2 ^ 24) (by omega))
    have runs := found (2 ^ 24) (by omega)
    rw [accepted.mpr, ← flatten_instructionRuns, runs, List.flatten_singleton]
    rw [runs, List.forall_mem_singleton, List.length_replicate]
  · obtain ⟨-, -, refused⟩ := assemble_spelled _ (fits (2 ^ 24 + 1) (Nat.le_refl _))
    have long : 2 ^ 24 < (List.replicate (2 ^ 24 + 1) (ascii '+')).length := by
      rw [List.length_replicate]
      exact Nat.lt_succ_self _
    rw [found (2 ^ 24 + 1) (by omega)] at refused
    obtain ⟨diagnostics, failed, count, -⟩ := refused ⟨_, List.mem_singleton_self _, long⟩
    refine ⟨diagnostics, failed, ?_⟩
    rw [count, List.countP_singleton, decide_eq_true long]
    rfl

end BitTape
