import Mathlib.Algebra.Group.Nat.Defs
import BitTape.Assembly

/-!
# The language of words

A word is a block, perhaps with a star and a repeat count behind it.  A block is a name of an
instruction or a string of instruction symbols; a count is a decimal number, perhaps with a plus
sign.  `Denotes` relates such a word to its instructions.  Compiling a word succeeds exactly on
these words, and yields these instructions.
-/

namespace BitTape

/-- A word without repeat count, and the instructions it stands for. -/
inductive IsBlock : (base block : Bytes) → Prop where
  | name {base : Bytes} (instruction : Instruction) :
      instruction.mnemonic = base ∨ instruction.otherName? = some base →
        IsBlock base [instruction.symbol]
  | symbols {base : Bytes} :
      base ≠ [] → (∀ symbol ∈ base, isInstruction symbol = true) → IsBlock base base

/-- A string of decimal digits, perhaps after a plus sign, and its value. -/
def IsCount (count : Bytes) (value : Nat) : Prop :=
  ∃ digits : List Char, digits ≠ [] ∧ (∀ digit ∈ digits, digit.isDigit = true) ∧
    (count = digits.map ascii ∨ count = ascii '+' :: digits.map ascii) ∧
    Nat.ofDigitChars 10 digits 0 = value

/-- A word and the instructions it stands for. -/
inductive Denotes : (word code : Bytes) → Prop where
  | once {base block : Bytes} : IsBlock base block → Denotes base block
  | repeated {base block count : Bytes} {value : Nat} :
      IsBlock base block → IsCount count value → 1 ≤ value → value ≤ 2 ^ 24 →
        Denotes (base ++ star :: count) (List.replicate value block).flatten

/-! ## Names -/

namespace Instruction

theorem ofName?_eq_some_iff {name : Bytes} {instruction : Instruction} :
    ofName? name = some instruction ↔
      instruction.mnemonic = name ∨ instruction.otherName? = some name := by
  constructor
  · intro found
    simpa using List.find?_some found
  · rintro (rfl | named)
    · cases instruction <;> rfl
    · cases instruction <;> cases named <;> rfl

theorem exists_comment_of_name {name : Bytes} {instruction : Instruction}
    (named : instruction.mnemonic = name ∨ instruction.otherName? = some name) :
    ∃ letter ∈ name, isInstruction letter = false := by
  rcases named with rfl | named
  · cases instruction <;> exact ⟨_, List.mem_cons_self, rfl⟩
  · cases instruction <;> cases named <;> exact ⟨_, List.mem_cons_self, rfl⟩

theorem star_notMem_name {name : Bytes} {instruction : Instruction}
    (named : instruction.mnemonic = name ∨ instruction.otherName? = some name) : star ∉ name := by
  rcases named with rfl | named
  · cases instruction <;> decide
  · cases instruction <;> cases named <;> decide

end Instruction

/-! ## Blocks -/

theorem IsBlock.star_notMem {base block : Bytes} (isBlock : IsBlock base block) : star ∉ base := by
  cases isBlock with
  | name instruction named => exact Instruction.star_notMem_name named
  | symbols _ allSymbols =>
      intro present
      have isOne := allSymbols star present
      cases isOne

/-- Compiling a word without repeat count finds the block that it stands for. -/
theorem compileBase_eq_ok_iff {word base block : Bytes} :
    compileBase word base = .ok block ↔ IsBlock base block := by
  constructor
  · intro compiled
    rw [compileBase] at compiled
    split at compiled
    · rename_i instruction found
      obtain rfl := Except.ok.inj compiled
      exact .name instruction (Instruction.ofName?_eq_some_iff.mp found)
    · split at compiled
      · cases compiled
      · rename_i nonempty
        split at compiled
        · rename_i allSymbols
          obtain rfl := Except.ok.inj compiled
          exact .symbols nonempty (by simpa using allSymbols)
        · cases compiled
  · rintro (⟨instruction, named⟩ | ⟨nonempty, allSymbols⟩)
    · rw [compileBase, Instruction.ofName?_eq_some_iff.mpr named]
    · have unnamed : Instruction.ofName? base = none := by
        rw [Option.eq_none_iff_forall_ne_some]
        intro instruction found
        obtain ⟨letter, present, isNone⟩ :=
          Instruction.exists_comment_of_name (Instruction.ofName?_eq_some_iff.mp found)
        rw [allSymbols letter present] at isNone
        cases isNone
      simp only [compileBase, unnamed, nonempty, if_false]
      rw [if_pos (by simpa using allSymbols)]

/-! ## Repeat counts -/

theorem toNat_of_isDigit {char : Char} (isDigit : char.isDigit = true) :
    48 ≤ char.toNat ∧ char.toNat ≤ 57 := by
  simpa [Char.isDigit, UInt32.le_iff_toNat_le] using isDigit

private theorem toNat_ascii_of_isDigit {char : Char} (isDigit : char.isDigit = true) :
    (ascii char).toNat = char.toNat := by
  obtain ⟨low, high⟩ := toNat_of_isDigit isDigit
  rw [ascii, Nat.toUInt8_eq, UInt8.toNat_ofNat']
  omega

private theorem ascii_digit_bounds {char : Char} (isDigit : char.isDigit = true) :
    ascii '0' ≤ ascii char ∧ ascii char ≤ ascii '9' := by
  obtain ⟨low, high⟩ := toNat_of_isDigit isDigit
  rw [UInt8.le_iff_toNat_le, UInt8.le_iff_toNat_le, toNat_ascii_of_isDigit isDigit]
  exact ⟨low, high⟩

private theorem ascii_digit_sub {char : Char} (isDigit : char.isDigit = true) :
    (ascii char - ascii '0').toNat = char.toNat - '0'.toNat := by
  obtain ⟨low, high⟩ := ascii_digit_bounds isDigit
  rw [UInt8.toNat_sub_of_le _ _ low, toNat_ascii_of_isDigit isDigit]
  rfl

private theorem exists_digit {byte : UInt8} (low : ascii '0' ≤ byte) (high : byte ≤ ascii '9') :
    ∃ char : Char, char.isDigit = true ∧ ascii char = byte := by
  have low : 48 ≤ byte.toNat := low
  have high : byte.toNat ≤ 57 := high
  have small : byte.toNat - 48 < 10 := by omega
  have isDigit : (Nat.digitChar (byte.toNat - 48)).isDigit = true := by
    simp [Nat.isDigit_digitChar, small]
  refine ⟨Nat.digitChar (byte.toNat - 48), isDigit, ?_⟩
  rw [← UInt8.toNat_inj, toNat_ascii_of_isDigit isDigit, Nat.toNat_digitChar_of_lt_ten small]
  omega

theorem foldl_digits {digits : List Char} (allDigits : ∀ digit ∈ digits, digit.isDigit = true)
    (start : Nat) :
    (digits.map ascii).foldl (fun value byte => 10 * value + (byte - ascii '0').toNat) start =
      Nat.ofDigitChars 10 digits start := by
  induction digits generalizing start with
  | nil => simp
  | cons digit rest ih =>
      have first := ascii_digit_sub (allDigits digit List.mem_cons_self)
      rw [List.map_cons, List.foldl_cons, Nat.ofDigitChars_cons, first]
      exact ih (fun other isRest => allDigits other (List.mem_cons_of_mem _ isRest)) _

theorem exists_digits {bytes : Bytes}
    (allDigits : ∀ byte ∈ bytes, ascii '0' ≤ byte ∧ byte ≤ ascii '9') :
    ∃ digits : List Char, (∀ digit ∈ digits, digit.isDigit = true) ∧
      digits.map ascii = bytes := by
  induction bytes with
  | nil => exact ⟨[], by simp⟩
  | cons byte rest ih =>
      obtain ⟨low, high⟩ := allDigits byte List.mem_cons_self
      obtain ⟨digit, isDigit, rfl⟩ := exists_digit low high
      obtain ⟨digits, areDigits, rfl⟩ :=
        ih fun other isRest => allDigits other (List.mem_cons_of_mem _ isRest)
      exact ⟨digit :: digits, by simpa using ⟨isDigit, areDigits⟩, rfl⟩

theorem digitsValue?_eq_some_iff {bytes : Bytes} {value : Nat} :
    digitsValue? bytes = some value ↔
      ∃ digits : List Char, digits ≠ [] ∧ (∀ digit ∈ digits, digit.isDigit = true) ∧
        bytes = digits.map ascii ∧ Nat.ofDigitChars 10 digits 0 = value := by
  rw [digitsValue?]
  constructor
  · intro found
    split at found
    · rename_i accepted
      obtain ⟨nonempty, allDigits⟩ := accepted
      have bounds : ∀ byte ∈ bytes, ascii '0' ≤ byte ∧ byte ≤ ascii '9' := by
        simpa using allDigits
      obtain ⟨digits, areDigits, rfl⟩ := exists_digits bounds
      refine ⟨digits, by simpa using nonempty, areDigits, rfl, ?_⟩
      rw [← foldl_digits areDigits]
      exact Option.some.inj found
    · cases found
  · rintro ⟨digits, nonempty, areDigits, rfl, rfl⟩
    have allDigits : (digits.map ascii).all
        (fun byte => ascii '0' ≤ byte && byte ≤ ascii '9') = true := by
      simp only [List.all_map, List.all_eq_true, Function.comp, Bool.and_eq_true, decide_eq_true_eq]
      exact fun digit present => ascii_digit_bounds (areDigits digit present)
    rw [if_pos ⟨by simpa using nonempty, allDigits⟩, foldl_digits areDigits]

private theorem plus_ne_digit {char : Char} (isDigit : char.isDigit = true) :
    ascii char ≠ ascii '+' := by
  obtain ⟨low, -⟩ := toNat_of_isDigit isDigit
  have plus : (ascii '+').toNat = 43 := rfl
  rw [ne_eq, ← UInt8.toNat_inj, toNat_ascii_of_isDigit isDigit, plus]
  omega

/-- A count is read if its value is positive and fits into a signed word. -/
theorem countValue?_eq_some_iff {count : Bytes} {value : Nat} :
    countValue? count = some value ↔ IsCount count value ∧ 1 ≤ value ∧ value < 2 ^ 63 := by
  have reads : (digitsValue?
      (if count.head? = some (ascii '+') then count.tail else count) = some value) ↔
        IsCount count value := by
    rw [digitsValue?_eq_some_iff]
    constructor
    · rintro ⟨digits, nonempty, areDigits, spelled, total⟩
      refine ⟨digits, nonempty, areDigits, ?_, total⟩
      split at spelled
      · rename_i signed
        obtain ⟨rest, rfl⟩ := List.head?_eq_some_iff.mp signed
        exact .inr (congrArg (List.cons _) spelled)
      · exact .inl spelled
    · rintro ⟨digits, nonempty, areDigits, rfl | rfl, total⟩
      · refine ⟨digits, nonempty, areDigits, ?_, total⟩
        cases digits with
        | nil => exact (nonempty rfl).elim
        | cons digit rest =>
            rw [if_neg]
            simpa using plus_ne_digit (areDigits digit List.mem_cons_self)
      · exact ⟨digits, nonempty, areDigits, rfl, total⟩
  have limit : value < 0x8000000000000000 ↔ value < 2 ^ 63 := by omega
  rw [countValue?, Option.filter_eq_some_iff, reads]
  simp only [Bool.and_eq_true, decide_eq_true_eq, limit]

theorem IsCount.star_notMem {count : Bytes} {value : Nat} (isCount : IsCount count value) :
    star ∉ count := by
  obtain ⟨digits, -, areDigits, spelled, -⟩ := isCount
  have inDigits : star ∉ digits.map ascii := by
    rw [List.mem_map]
    rintro ⟨digit, present, same⟩
    obtain ⟨low, -⟩ := ascii_digit_bounds (areDigits digit present)
    rw [same] at low
    exact absurd low (by decide)
  rcases spelled with rfl | rfl
  · exact inDigits
  · rw [List.mem_cons, not_or]
    exact ⟨by decide, inDigits⟩

theorem isCount_decimal (value : Nat) : IsCount (decimal value) value := by
  refine ⟨Nat.toDigits 10 value, Nat.toDigits_ne_nil, ?_, .inl rfl, Nat.ofDigitChars_ten_toDigits⟩
  intro digit present
  exact Nat.isDigit_of_mem_toDigits (by decide) (by decide) present

/-! ## Words -/

theorem splitAtStar?_eq_none_iff {word : Bytes} : splitAtStar? word = none ↔ star ∉ word := by
  induction word with
  | nil => simp [splitAtStar?]
  | cons byte rest ih =>
      rw [splitAtStar?, List.mem_cons, not_or, ← ih]
      cases splitAtStar? rest with
      | some parts => simp
      | none => simp [eq_comm]

/-- The last star of a word is the one with none behind it. -/
theorem splitAtStar?_append {base count : Bytes} (last : star ∉ count) :
    splitAtStar? (base ++ star :: count) = some (base, count) := by
  induction base with
  | nil => simp [splitAtStar?, splitAtStar?_eq_none_iff.mpr last]
  | cons byte rest ih => rw [List.cons_append, splitAtStar?, ih]

theorem eq_of_splitAtStar? {word base count : Bytes}
    (split : splitAtStar? word = some (base, count)) : word = base ++ star :: count := by
  induction word generalizing base with
  | nil => cases split
  | cons byte rest ih =>
      rw [splitAtStar?] at split
      split at split
      · rename_i front found
        cases split
        rw [ih found]
        rfl
      · split at split
        · rename_i isStar
          cases split
          rw [isStar]
          rfl
        · cases split

/-- A word with a repeat count is compiled, unless the count is too large. -/
theorem compileWord_repeated {base block count : Bytes} {value : Nat}
    (isBlock : IsBlock base block) (isCount : IsCount count value) (positive : 1 ≤ value)
    (fits : value < 2 ^ 63) :
    compileWord (base ++ star :: count) =
      if maxRepeat < value then .error (.largeCount (base ++ star :: count))
      else .ok ⟨block, value⟩ := by
  rw [compileWord, splitAtStar?_append isCount.star_notMem]
  simp only [countValue?_eq_some_iff.mpr ⟨isCount, positive, fits⟩,
    compileBase_eq_ok_iff.mpr isBlock]
  rfl

theorem compileWord_once {base block : Bytes} (isBlock : IsBlock base block) :
    compileWord base = .ok ⟨block, 1⟩ := by
  rw [compileWord, splitAtStar?_eq_none_iff.mpr isBlock.star_notMem]
  simp only [compileBase_eq_ok_iff.mpr isBlock]
  rfl

/-- Exactly the words of the language are compiled, and to the instructions they stand for. -/
theorem denotes_iff_compileWord {word code : Bytes} :
    Denotes word code ↔ ∃ expansion, compileWord word = .ok expansion ∧ expansion.code = code := by
  constructor
  · rintro (isBlock | ⟨isBlock, isCount, positive, small⟩)
    · exact ⟨_, compileWord_once isBlock, by simp [Expansion.code]⟩
    · refine ⟨⟨_, _⟩, ?_, rfl⟩
      rw [compileWord_repeated isBlock isCount positive (by omega), if_neg]
      exact Nat.not_lt.mpr small
  · rintro ⟨expansion, compiled, rfl⟩
    rw [compileWord] at compiled
    split at compiled
    · cases found : compileBase word word with
      | error complaint => simp [found, Except.map] at compiled
      | ok block =>
          have isBlock := compileBase_eq_ok_iff.mp found
          obtain rfl : ⟨block, 1⟩ = expansion := by simpa [found, Except.map] using compiled
          simpa [Expansion.code] using Denotes.once isBlock
    · rename_i base count split
      split at compiled
      · cases compiled
      · rename_i value read
        obtain ⟨isCount, positive, -⟩ := countValue?_eq_some_iff.mp read
        split at compiled
        · cases compiled
        · rename_i small
          cases found : compileBase word base with
          | error complaint => simp [found, Except.map] at compiled
          | ok block =>
              have isBlock := compileBase_eq_ok_iff.mp found
              obtain rfl : ⟨block, value⟩ = expansion := by simpa [found, Except.map] using compiled
              rw [eq_of_splitAtStar? split]
              exact .repeated isBlock isCount positive (Nat.not_lt.mp small)

end BitTape
