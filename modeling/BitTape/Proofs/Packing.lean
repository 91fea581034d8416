import Mathlib.Algebra.Group.Nat.Defs
import BitTape.Bits

/-!
# Bits and bytes

The bits of a byte determine it, so packing and unpacking a byte string gives it back.  Any bits are
unpacked in groups of eight, and packing the bytes gives them back with the last group filled up.  A
cursor over packed bytes delivers them one by one, and zero bytes after the end.
-/

namespace BitTape

/-- The number with the given bits, least significant first. -/
def valueOfBits (bits : List Bool) : Nat :=
  bits.foldr (fun bit value => Bool.toNat bit + 2 * value) 0

theorem byteOfBits_eq (bits : List Bool) : byteOfBits bits = (valueOfBits bits).toUInt8 := rfl

theorem valueOfBits_cons (bit : Bool) (bits : List Bool) :
    valueOfBits (bit :: bits) = bit.toNat + 2 * valueOfBits bits := rfl

theorem valueOfBits_testBit (number count : Nat) :
    valueOfBits ((List.range count).map number.testBit) = number % 2 ^ count := by
  induction count generalizing number with
  | zero => simp [valueOfBits, Nat.mod_one]
  | succ count ih =>
      have shifted : (List.map Nat.succ (List.range count)).map number.testBit =
          (List.range count).map (number / 2).testBit := by
        simp [Function.comp_def, Nat.testBit_succ]
      rw [List.range_succ_eq_map, List.map_cons, shifted, valueOfBits_cons, ih,
        Nat.toNat_testBit, Nat.pow_succ', Nat.mod_mul]
      simp

theorem testBit_valueOfBits (bits : List Bool) (place : Nat) :
    (valueOfBits bits).testBit place = bits.getD place false := by
  induction bits generalizing place with
  | nil => simp [valueOfBits]
  | cons bit bits ih =>
      rw [valueOfBits_cons]
      cases place with
      | zero => cases bit <;> simp
      | succ place =>
          have halved : (bit.toNat + 2 * valueOfBits bits) / 2 = valueOfBits bits := by
            have small := bit.toNat_le
            omega
          rw [Nat.testBit_succ, halved, ih, List.getD_cons_succ]

/-- The bits of a byte determine it. -/
theorem byteOfBits_bitsOfByte (byte : UInt8) : byteOfBits (bitsOfByte byte) = byte := by
  rw [byteOfBits_eq, bitsOfByte, valueOfBits_testBit]
  exact UInt8.toNat_inj.mp (by simp)

/-- A byte has the bits that it was made of, and zeros in the place of missing ones. -/
theorem bitsOfByte_byteOfBits {bits : List Bool} (short : bits.length ≤ 8) :
    bitsOfByte (byteOfBits bits) = bits ++ List.replicate (8 - bits.length) false := by
  apply List.ext_getElem?
  intro place
  by_cases inside : place < 8
  · have value : (byteOfBits bits).toNat = valueOfBits bits % 2 ^ 8 := by
      simp [byteOfBits_eq]
    have bit : (valueOfBits bits % 2 ^ 8).testBit place = bits.getD place false := by
      rw [Nat.testBit_mod_two_pow, testBit_valueOfBits]
      simp [inside]
    rw [bitsOfByte, value, List.getElem?_map, List.getElem?_range inside, Option.map_some, bit,
      List.getD_eq_getElem?_getD]
    by_cases present : place < bits.length
    · simp [List.getElem?_append_left, present]
    · rw [List.getElem?_append_right (by omega), List.getElem?_replicate_of_lt (by omega),
        List.getElem?_eq_none (by omega), Option.getD_none]
  · rw [List.getElem?_eq_none (by simpa using inside), List.getElem?_eq_none]
    simp
    omega

theorem bitsOfByte_zero : bitsOfByte 0 = List.replicate 8 false := by
  decide

theorem bits_cases (bits : List Bool) :
    bits = List.replicate bits.length false ∨
      ∃ count rest, bits = List.replicate count false ++ true :: rest := by
  induction bits with
  | nil => exact .inl rfl
  | cons bit bits ih =>
      cases bit with
      | true => exact .inr ⟨0, bits, rfl⟩
      | false =>
          rcases ih with zero | ⟨count, rest, split⟩
          · exact .inl (congrArg (false :: ·) zero)
          · exact .inr ⟨count + 1, rest, congrArg (false :: ·) split⟩

theorem exists_first_one {byte : UInt8} (nonzero : byte ≠ 0) :
    ∃ count rest, bitsOfByte byte = List.replicate count false ++ true :: rest := by
  rcases bits_cases (bitsOfByte byte) with zero | split
  · rw [length_bitsOfByte, ← bitsOfByte_zero] at zero
    refine absurd ?_ nonzero
    rw [← byteOfBits_bitsOfByte byte, zero, byteOfBits_bitsOfByte]
  · exact split

theorem unpack_append {bits : List Bool} (full : bits.length = 8) (rest : List Bool) :
    unpack (bits ++ rest) = byteOfBits bits :: unpack rest := by
  cases bits with
  | nil => cases full
  | cons bit bits =>
      have seven : bits.length = 7 := Nat.succ.inj full
      rw [List.cons_append, unpack_cons, List.take_left' seven, List.drop_left' seven]

/-- Unpacking the bits of a byte string gives it back. -/
theorem unpack_pack (bytes : Bytes) : unpack (pack bytes) = bytes := by
  induction bytes with
  | nil => rfl
  | cons byte bytes ih =>
      rw [pack_cons, unpack_append (length_bitsOfByte byte), byteOfBits_bitsOfByte, ih]

/-! ## Groups of eight bits -/

/-- Bits are taken eight at a time, and those that are left at the end make a short group. -/
theorem groups_induction {motive : List Bool → Prop} (nil : motive [])
    (short : ∀ bits, 0 < bits.length → bits.length < 8 → motive bits)
    (group : ∀ bits rest, bits.length = 8 → motive rest → motive (bits ++ rest))
    (bits : List Bool) : motive bits := by
  induction length_eq : bits.length using Nat.strongRecOn generalizing bits with
  | ind length ih =>
      by_cases empty : length = 0
      · rw [List.length_eq_zero_iff.mp (length_eq.trans empty)]
        exact nil
      · by_cases full : 8 ≤ length
        · rw [← List.take_append_drop 8 bits]
          refine group _ _ ?_ (ih (length - 8) (by omega) _ ?_)
          · rw [List.length_take]
            omega
          · rw [List.length_drop, length_eq]
        · exact short bits (by omega) (by omega)

theorem unpack_of_short {bits : List Bool} (positive : 0 < bits.length)
    (short : bits.length ≤ 8) : unpack bits = [byteOfBits bits] := by
  cases bits with
  | nil => cases positive
  | cons bit rest =>
      rw [List.length_cons] at short
      rw [unpack_cons, List.take_of_length_le (by omega), List.drop_of_length_le (by omega),
        unpack_nil]

/-- There are as few bytes as can hold the bits. -/
theorem length_unpack (bits : List Bool) : (unpack bits).length = (bits.length + 7) / 8 := by
  induction bits using groups_induction with
  | nil => rfl
  | short bits positive few =>
      rw [unpack_of_short positive (by omega), List.length_singleton]
      omega
  | group bits rest full ih =>
      rw [unpack_append full, List.length_cons, ih, List.length_append]
      omega

/-- Packing the bytes made of some bits gives these bits and fills the last byte with zeros. -/
theorem pack_unpack (bits : List Bool) :
    pack (unpack bits) = bits ++ List.replicate ((8 - bits.length % 8) % 8) false := by
  induction bits using groups_induction with
  | nil => rfl
  | short bits positive few =>
      have missing : (8 - bits.length % 8) % 8 = 8 - bits.length := by omega
      rw [unpack_of_short positive (by omega), pack_cons, pack_nil, List.append_nil,
        bitsOfByte_byteOfBits (by omega), missing]
  | group bits rest full ih =>
      have missing : (8 - (bits ++ rest).length % 8) % 8 = (8 - rest.length % 8) % 8 := by
        rw [List.length_append]
        omega
      rw [unpack_append full, pack_cons, ih, bitsOfByte_byteOfBits (by omega), full, missing]
      simp

theorem unpack_append_of_dvd {bits : List Bool} (whole : 8 ∣ bits.length) (rest : List Bool) :
    unpack (bits ++ rest) = unpack bits ++ unpack rest := by
  induction bits using groups_induction with
  | nil => rfl
  | short bits positive few => omega
  | group bits more full ih =>
      have others : 8 ∣ more.length := by
        rw [List.length_append, full] at whole
        omega
      rw [List.append_assoc, unpack_append full, unpack_append full, ih others, List.cons_append]

/-- A byte string comes back from its bits, and bits come back from the fewest bytes that can hold
them, with zeros that fill the last byte. -/
theorem unpacking_inverts_packing :
    (∀ bytes : Bytes, unpack (pack bytes) = bytes ∧ (pack bytes).length = 8 * bytes.length) ∧
    (∀ bits : List Bool,
      (unpack bits).length = (bits.length + 7) / 8 ∧
      pack (unpack bits) = bits ++ List.replicate ((8 - bits.length % 8) % 8) false) ∧
    ∀ bits rest : List Bool, 8 ∣ bits.length →
      unpack (bits ++ rest) = unpack bits ++ unpack rest :=
  ⟨fun bytes => ⟨unpack_pack bytes, length_pack bytes⟩,
    fun bits => ⟨length_unpack bits, pack_unpack bits⟩,
    fun _ rest whole => unpack_append_of_dvd whole rest⟩

/-- Three bits behind two whole bytes make a third byte. -/
theorem unpacking_splits_behind_two_bytes :
    8 ∣ (pack [66, 255]).length ∧
      unpack (pack [66, 255] ++ [true, false, true]) = [66, 255] ++ [5] := by
  obtain ⟨whole, -, split⟩ := unpacking_inverts_packing
  have aligned : 8 ∣ (pack [66, 255]).length := by decide
  refine ⟨aligned, ?_⟩
  rw [split _ _ aligned, (whole [66, 255]).1]
  decide

/-! ## Cursors -/

namespace InputBits

theorem take_append (bits rest : List Bool) (position : Nat) :
    take bits.length ⟨position, bits ++ rest⟩ = (bits, ⟨position + bits.length, rest⟩) := by
  induction bits generalizing position with
  | nil => rfl
  | cons bit bits ih => simp [take, next, ih, Nat.add_assoc, Nat.add_comm 1]

theorem take_nil (count position : Nat) :
    take count ⟨position, []⟩ = (List.replicate count false, ⟨position, []⟩) := by
  induction count with
  | zero => rfl
  | succ count ih => simp [take, next, ih, List.replicate_succ]

theorem take_pack_cons (position : Nat) (byte : UInt8) (bytes : Bytes) :
    take 8 ⟨position, pack (byte :: bytes)⟩ = (bitsOfByte byte, ⟨position + 8, pack bytes⟩) := by
  have taken := take_append (bitsOfByte byte) (pack bytes) position
  rwa [length_bitsOfByte] at taken

end InputBits
end BitTape
