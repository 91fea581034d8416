import Mathlib.Order.Bounds.Basic
import BitTape.Proofs.Cells
import BitTape.Proofs.Trace

/-!
# The extent of a tape

A tape covers a set of positions if its visited part goes from the least of them to the greatest.
Each visit adds one position to the set, whatever the order of the visits, and so does each
instruction, which visits the cell under the head.  This holds as long as the positions lie so close
together that the cells between them can be counted in a word; then the cells are also listed and
indexed without an overflow.
-/

namespace BitTape

/-- The cells from one of the positions to another are fewer than the range of a word. -/
def Close (positions : Set Int) : Prop :=
  ∀ first ∈ positions, ∀ last ∈ positions, last - first + 1 < 2 ^ 63

theorem Close.mono {positions fewer : Set Int} (close : Close positions)
    (subset : fewer ⊆ positions) : Close fewer :=
  fun first isFirst last isLast => close first (subset isFirst) last (subset isLast)

theorem close_of_bounds {positions : Set Int} {low high : Int} (least : IsLeast positions low)
    (greatest : IsGreatest positions high) (fits : high - low + 1 < 2 ^ 63) : Close positions := by
  intro first isFirst last isLast
  have low_le := least.2 isFirst
  have le_high := greatest.2 isLast
  omega

namespace Tape

/-- The visited part goes from the least of the positions, which include zero, to the greatest. -/
structure Covers (tape : Tape) (positions : Set Int) : Prop where
  zero_mem : 0 ∈ positions
  least : IsLeast positions (-tape.leftExtent.toInt)
  greatest : IsGreatest positions (tape.rightExtent.toInt - 1)

theorem covers_blank : blank.Covers {0} :=
  ⟨rfl, isLeast_singleton, isGreatest_singleton⟩

namespace Covers

variable {tape other : Tape} {positions : Set Int}

theorem left_nonneg (covers : tape.Covers positions) : 0 ≤ tape.leftExtent.toInt := by
  have le_zero := covers.least.2 covers.zero_mem
  omega

theorem right_pos (covers : tape.Covers positions) : 0 < tape.rightExtent.toInt := by
  have zero_le := covers.greatest.2 covers.zero_mem
  omega

theorem congr (covers : tape.Covers positions) (left : other.leftExtent = tape.leftExtent)
    (right : other.rightExtent = tape.rightExtent) : other.Covers positions where
  zero_mem := covers.zero_mem
  least := left ▸ covers.least
  greatest := right ▸ covers.greatest

theorem visit (covers : tape.Covers positions) {position : Int64}
    (close : Close (insert position.toInt positions)) :
    (tape.visit position).Covers (insert position.toInt positions) := by
  have zero_mem : 0 ∈ insert position.toInt positions := Set.mem_insert_of_mem _ covers.zero_mem
  have high := close 0 zero_mem position.toInt (Set.mem_insert _ _)
  have low := close position.toInt (Set.mem_insert _ _) 0 zero_mem
  have right := tape.toInt_rightExtent_visit position (by omega)
  have left := tape.toInt_leftExtent_visit position (Int.le_of_lt covers.right_pos)
    covers.left_nonneg (by omega)
  refine ⟨zero_mem, ?_, ?_⟩
  · have least : -(tape.visit position).leftExtent.toInt =
        min position.toInt (-tape.leftExtent.toInt) := by omega
    rw [least]
    exact covers.least.insert _
  · have greatest : (tape.visit position).rightExtent.toInt - 1 =
        max position.toInt (tape.rightExtent.toInt - 1) := by omega
    rw [greatest]
    exact covers.greatest.insert _

theorem set (covers : tape.Covers positions) {position : Int64} (bit : Bool)
    (close : Close (insert position.toInt positions)) :
    (tape.set position bit).Covers (insert position.toInt positions) :=
  (covers.visit close).congr (leftExtent_set ..) (rightExtent_set ..)

theorem flip (covers : tape.Covers positions) {position : Int64}
    (close : Close (insert position.toInt positions)) :
    (tape.flip position).2.Covers (insert position.toInt positions) :=
  (covers.visit close).congr (leftExtent_flip ..) (rightExtent_flip ..)

/-- Tapes that cover the same positions have the same extent. -/
theorem extent_eq (covers : tape.Covers positions) (coversToo : other.Covers positions) :
    other.leftExtent = tape.leftExtent ∧ other.rightExtent = tape.rightExtent := by
  have left := covers.least.unique coversToo.least
  have right := covers.greatest.unique coversToo.greatest
  exact ⟨Int64.toInt_inj.mp (by omega), Int64.toInt_inj.mp (by omega)⟩

theorem extent_le (covers : tape.Covers positions) {more : Set Int} (coversMore : other.Covers more)
    (subset : positions ⊆ more) :
    tape.leftExtent.toInt ≤ other.leftExtent.toInt ∧
      tape.rightExtent.toInt ≤ other.rightExtent.toInt := by
  have left := covers.least.mono coversMore.least subset
  have right := covers.greatest.mono coversMore.greatest subset
  omega

theorem length_bits (covers : tape.Covers positions) :
    (tape.bits.length : Int) = tape.leftExtent.toInt + tape.rightExtent.toInt := by
  have left := covers.left_nonneg
  have right := covers.right_pos
  rw [Tape.length_bits]
  omega

theorem toInt_length (covers : tape.Covers positions) (close : Close positions) :
    tape.length.toInt = tape.leftExtent.toInt + tape.rightExtent.toInt := by
  have left := covers.left_nonneg
  have right := covers.right_pos
  have short := close _ covers.least.1 _ covers.greatest.1
  exact toInt_add_of_fits (by omega) (by omega)

variable {position : Int64} (low : -tape.leftExtent.toInt ≤ position.toInt)
  (high : position.toInt < tape.rightExtent.toInt)
include low high

theorem toInt_index (covers : tape.Covers positions) (close : Close positions) :
    (tape.index position).toInt = position.toInt + tape.leftExtent.toInt := by
  have short := close _ covers.least.1 _ covers.greatest.1
  exact toInt_add_of_fits (by omega) (by omega)

theorem getElem?_bits (covers : tape.Covers positions) (close : Close positions) :
    tape.bits[(tape.index position).toInt.toNat]? = some (tape.cell position) := by
  have index := covers.toInt_index low high close
  have length := covers.length_bits
  rw [tape.getElem?_bits covers.left_nonneg (by omega), ← bitAt_toInt]
  congr 2
  omega

end Covers
end Tape

/-! ## Instructions -/

/-- An instruction adds the position where it leaves the head. -/
theorem Machine.Step.covers {before after : Machine} (step : before.Step after)
    {positions : Set Int} (covers : before.tape.Covers positions)
    (head_mem : before.head.toInt ∈ positions)
    (close : Close (insert after.head.toInt positions)) :
    after.tape.Covers (insert after.head.toInt positions) := by
  rcases step.cases with
    ⟨action, -, rfl⟩ | ⟨bracket, -, -, ⟨-, rfl⟩ | ⟨-, target, -, rfl⟩⟩
  · cases action with
    | flip => exact covers.flip close
    | read => exact covers.set _ close
    | write | left | right => exact covers.visit close
    | comment =>
        have here : insert before.head.toInt positions = positions := Set.insert_eq_of_mem head_mem
        exact here.symm ▸ covers
  · exact covers.visit close
  · exact covers.visit close

end BitTape
