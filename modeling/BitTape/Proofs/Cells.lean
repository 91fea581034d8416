import Mathlib.Algebra.Group.Int.Defs
import Mathlib.Algebra.Group.Nat.Defs
import BitTape.Tape

/-!
# Cells of a tape

The two bit sets of a tape are one map from integer positions to bits.  Storing and toggling change
it at one position only, whatever the position, and visits change the extent only.  As long as no
position leaves the range of a machine word, the extent grows to the visited position and no
further.
-/

namespace BitTape

/-! ## Words without overflow -/

theorem toInt_add_of_fits {first second : Int64} (low : -2 ^ 63 ≤ first.toInt + second.toInt)
    (high : first.toInt + second.toInt < 2 ^ 63) :
    (first + second).toInt = first.toInt + second.toInt := by
  rw [Int64.toInt_add]
  exact Int.bmod_eq_of_le (by omega) (by omega)

theorem toInt_sub_of_fits {first second : Int64} (low : -2 ^ 63 ≤ first.toInt - second.toInt)
    (high : first.toInt - second.toInt < 2 ^ 63) :
    (first - second).toInt = first.toInt - second.toInt := by
  rw [Int64.toInt_sub]
  exact Int.bmod_eq_of_le (by omega) (by omega)

theorem toInt_neg_of_fits {word : Int64} (low : -2 ^ 63 < word.toInt) :
    (-word).toInt = -word.toInt := by
  have high := word.toInt_lt
  rw [Int64.toInt_neg]
  exact Int.bmod_eq_of_le (by omega) (by omega)

theorem toInt_add_one {word : Int64} (high : word.toInt < 2 ^ 63 - 1) :
    (word + 1).toInt = word.toInt + 1 := by
  have low := word.le_toInt
  rw [toInt_add_of_fits, Int64.toInt_one] <;> rw [Int64.toInt_one] <;> omega

theorem toInt_sub_one {word : Int64} (low : -2 ^ 63 < word.toInt) :
    (word - 1).toInt = word.toInt - 1 := by
  have high := word.toInt_lt
  rw [toInt_sub_of_fits, Int64.toInt_one] <;> rw [Int64.toInt_one] <;> omega

namespace Tape

/-! ## The map of cells -/

/-- The bit at an integer position. -/
def bitAt (tape : Tape) (position : Int) : Bool :=
  if 0 ≤ position then tape.rightCells.testBit position.toNat
  else tape.leftCells.testBit (-position - 1).toNat

theorem slot_of_nonneg {position : Int64} (nonneg : 0 ≤ position.toInt) :
    slot position = position.toInt.toNat := by
  have isRight : 0 ≤ position := Int64.le_iff_toInt_le.mpr (by simpa using nonneg)
  simp [slot, isRight]

theorem slot_of_neg {position : Int64} (neg : position.toInt < 0) :
    slot position = (-position.toInt - 1).toNat := by
  have isLeft : ¬ 0 ≤ position := by
    rw [Int64.le_iff_toInt_le, Int64.toInt_zero]
    omega
  have low := position.le_toInt
  have next := toInt_add_one (show position.toInt < 2 ^ 63 - 1 by omega)
  rw [slot, if_neg isLeft, ← Int64.toNat_toInt, toInt_neg_of_fits (by omega), next]
  congr 1
  omega

@[simp]
theorem bitAt_toInt (tape : Tape) (position : Int64) :
    tape.bitAt position.toInt = tape.cell position := by
  have side : (0 ≤ position) ↔ 0 ≤ position.toInt := by
    rw [Int64.le_iff_toInt_le, Int64.toInt_zero]
  rw [bitAt, cell]
  by_cases nonneg : 0 ≤ position.toInt
  · rw [if_pos nonneg, if_pos (side.mpr nonneg), slot_of_nonneg nonneg]
  · rw [if_neg nonneg, if_neg (mt side.mp nonneg), slot_of_neg (by omega)]

@[simp]
theorem bitAt_blank (position : Int) : blank.bitAt position = false := by
  simp [bitAt, blank]

@[simp]
theorem bitAt_visit (tape : Tape) (visited : Int64) (position : Int) :
    (tape.visit visited).bitAt position = tape.bitAt position := by
  rw [visit]
  split
  · rfl
  · split <;> rfl

theorem bitAt_toggle (tape : Tape) (toggled : Int64) (position : Int) :
    (tape.toggle toggled).bitAt position =
      if position = toggled.toInt then !tape.bitAt position else tape.bitAt position := by
  have testBit_toggle (cells bit other : Nat) :
      (cells ^^^ 1 <<< bit).testBit other =
        if other = bit then !cells.testBit other else cells.testBit other := by
    rw [Nat.testBit_xor, Nat.one_shiftLeft, Nat.testBit_two_pow]
    by_cases same : other = bit <;> simp [same, Ne.symm]
  have side : (0 ≤ toggled) ↔ 0 ≤ toggled.toInt := by
    rw [Int64.le_iff_toInt_le, Int64.toInt_zero]
  rw [toggle]
  by_cases nonneg : 0 ≤ toggled.toInt
  · rw [if_pos (side.mpr nonneg), slot_of_nonneg nonneg, bitAt, bitAt]
    by_cases right : 0 ≤ position
    · simp only [if_pos right, testBit_toggle]
      have same : position.toNat = toggled.toInt.toNat ↔ position = toggled.toInt := by omega
      simp only [same]
    · have apart : position ≠ toggled.toInt := by omega
      simp only [if_neg right, if_neg apart]
  · rw [if_neg (mt side.mp nonneg), slot_of_neg (by omega), bitAt, bitAt]
    by_cases right : 0 ≤ position
    · have apart : position ≠ toggled.toInt := by omega
      simp only [if_pos right, if_neg apart]
    · simp only [if_neg right, testBit_toggle]
      have same : (-position - 1).toNat = (-toggled.toInt - 1).toNat ↔
          position = toggled.toInt := by omega
      simp only [same]

theorem bitAt_set (tape : Tape) (stored : Int64) (bit : Bool) (position : Int) :
    (tape.set stored bit).bitAt position =
      if position = stored.toInt then bit else tape.bitAt position := by
  rw [set]
  split
  · rename_i same
    rw [bitAt_visit]
    split
    · rename_i here
      rw [here, bitAt_toInt, same]
    · rfl
  · rename_i differs
    rw [bitAt_toggle, bitAt_visit]
    split
    · rename_i here
      rw [here, bitAt_toInt]
      cases bit <;> simpa using differs
    · rfl

theorem bitAt_flip (tape : Tape) (flipped : Int64) (position : Int) :
    (tape.flip flipped).2.bitAt position =
      if position = flipped.toInt then !tape.bitAt position else tape.bitAt position := by
  simp [flip, bitAt_toggle]

theorem cell_set (tape : Tape) (stored : Int64) (bit : Bool) (position : Int64) :
    (tape.set stored bit).cell position =
      if position = stored then bit else tape.cell position := by
  rw [← bitAt_toInt, bitAt_set, bitAt_toInt]
  simp only [Int64.toInt_inj]

theorem cell_flip (tape : Tape) (flipped : Int64) (position : Int64) :
    (tape.flip flipped).2.cell position =
      if position = flipped then !tape.cell position else tape.cell position := by
  rw [← bitAt_toInt, bitAt_flip, bitAt_toInt]
  simp only [Int64.toInt_inj]

/-! ## The extent -/

@[simp]
theorem leftExtent_toggle (tape : Tape) (position : Int64) :
    (tape.toggle position).leftExtent = tape.leftExtent := by
  rw [toggle]
  split <;> rfl

@[simp]
theorem rightExtent_toggle (tape : Tape) (position : Int64) :
    (tape.toggle position).rightExtent = tape.rightExtent := by
  rw [toggle]
  split <;> rfl

@[simp]
theorem leftExtent_set (tape : Tape) (position : Int64) (bit : Bool) :
    (tape.set position bit).leftExtent = (tape.visit position).leftExtent := by
  rw [set]
  split <;> simp

@[simp]
theorem rightExtent_set (tape : Tape) (position : Int64) (bit : Bool) :
    (tape.set position bit).rightExtent = (tape.visit position).rightExtent := by
  rw [set]
  split <;> simp

@[simp]
theorem leftExtent_flip (tape : Tape) (position : Int64) :
    (tape.flip position).2.leftExtent = (tape.visit position).leftExtent :=
  leftExtent_toggle ..

@[simp]
theorem rightExtent_flip (tape : Tape) (position : Int64) :
    (tape.flip position).2.rightExtent = (tape.visit position).rightExtent :=
  rightExtent_toggle ..

/-- After two visits of a position a third one changes nothing, even when a count overflows. -/
theorem visit_visit_visit (tape : Tape) (position : Int64) :
    ((tape.visit position).visit position).visit position =
      (tape.visit position).visit position := by
  unfold visit
  grind

theorem visit_toggle (tape : Tape) (toggled visited : Int64) :
    (tape.toggle toggled).visit visited = (tape.visit visited).toggle toggled := by
  unfold visit
  rw [rightExtent_toggle, leftExtent_toggle]
  unfold toggle
  split
  · split <;> rfl
  · split <;> split <;> rfl

theorem toInt_rightExtent_visit (tape : Tape) (position : Int64)
    (high : position.toInt < 2 ^ 63 - 1) :
    (tape.visit position).rightExtent.toInt =
      max tape.rightExtent.toInt (position.toInt + 1) := by
  rw [visit]
  split
  · rename_i reached
    rw [Int64.le_iff_toInt_le] at reached
    rw [toInt_add_one high]
    omega
  · rename_i inside
    rw [Int64.le_iff_toInt_le] at inside
    have kept : tape.rightExtent.toInt = max tape.rightExtent.toInt (position.toInt + 1) := by
      omega
    split <;> exact kept

theorem toInt_leftExtent_visit (tape : Tape) (position : Int64)
    (right : 0 ≤ tape.rightExtent.toInt) (left : 0 ≤ tape.leftExtent.toInt)
    (low : -2 ^ 63 < position.toInt) :
    (tape.visit position).leftExtent.toInt = max tape.leftExtent.toInt (-position.toInt) := by
  have negated := toInt_neg_of_fits low
  have bound : (-tape.leftExtent).toInt = -tape.leftExtent.toInt :=
    toInt_neg_of_fits (by omega)
  rw [visit]
  split
  · rename_i reached
    rw [Int64.le_iff_toInt_le] at reached
    change tape.leftExtent.toInt = _
    omega
  · split
    · rename_i beyond
      rw [Int64.lt_iff_toInt_lt, bound] at beyond
      rw [negated]
      omega
    · rename_i inside
      rw [Int64.lt_iff_toInt_lt, bound] at inside
      omega

/-! ## The visited cells -/

theorem length_bits (tape : Tape) :
    tape.bits.length = tape.leftExtent.toInt.toNat + tape.rightExtent.toInt.toNat := by
  simp [bits]

/-- The visited cells are listed from the leftmost one on. -/
theorem getElem?_bits (tape : Tape) (left : 0 ≤ tape.leftExtent.toInt) {place : Nat}
    (inside : place < tape.bits.length) :
    tape.bits[place]? = some (tape.bitAt (place - tape.leftExtent.toInt)) := by
  rw [length_bits] at inside
  simp only [bits, bitAt, ← Int64.toNat_toInt]
  by_cases onLeft : place < tape.leftExtent.toInt.toNat
  · rw [List.getElem?_append_left (by simpa using onLeft),
      List.getElem?_reverse (by simpa using onLeft), if_neg (by omega), List.length_map,
      List.length_range, List.getElem?_map, List.getElem?_range (by omega), Option.map_some]
    congr 2
    omega
  · rw [List.getElem?_append_right (by simpa using onLeft), if_pos (by omega), List.length_reverse,
      List.length_map, List.length_range, List.getElem?_map, List.getElem?_range (by omega),
      Option.map_some]
    congr 2
    omega

end Tape
end BitTape
