import Mathlib.Data.List.Induction
import Mathlib.Data.Nat.Bits
import BitTape.Proofs.Extent

/-!
# A tape as a store of bits

A tape can be used apart from any machine, by reading, storing and toggling bits at positions of
one's choice.  Each position then holds the bit that was last stored there, toggled by every flip
since, and no position has an effect on another one, not even at the limits of a word.  The visited
part reaches over all positions that were addressed and over position zero, and no further.
-/

namespace BitTape

/-- One use of a tape. -/
inductive Access where
  | get (position : Int64)
  | set (position : Int64) (bit : Bool)
  | flip (position : Int64)
  deriving DecidableEq

namespace Access

/-- The position that is addressed. -/
def position : Access → Int64
  | get position => position
  | set position _ => position
  | flip position => position

/-- What an access makes of a tape. -/
def apply (tape : Tape) : Access → Tape
  | get position => (tape.get position).2
  | set position bit => tape.set position bit
  | flip position => (tape.flip position).2

theorem cell_apply_of_ne (tape : Tape) {access : Access} {position : Int64}
    (elsewhere : access.position ≠ position) :
    (access.apply tape).cell position = tape.cell position := by
  cases access with
  | get => exact Tape.cell_visit ..
  | set => exact (Tape.cell_set ..).trans (if_neg elsewhere.symm)
  | flip => exact (Tape.cell_flip ..).trans (if_neg elsewhere.symm)

theorem covers_apply {tape : Tape} {positions : Set Int} (covers : tape.Covers positions)
    {access : Access} (close : Close (insert access.position.toInt positions)) :
    (access.apply tape).Covers (insert access.position.toInt positions) := by
  cases access with
  | get => exact covers.visit close
  | set _ bit => exact covers.set bit close
  | flip => exact covers.flip close

end Access

/-- Position zero and the positions that are addressed. -/
def addressed (history : List Access) : Set Int :=
  {position | position = 0 ∨ ∃ access ∈ history, access.position.toInt = position}

@[simp]
theorem addressed_nil : addressed [] = {0} := by
  ext position
  simp [addressed]

theorem addressed_snoc (history : List Access) (access : Access) :
    addressed (history ++ [access]) = insert access.position.toInt (addressed history) := by
  ext position
  simp only [addressed, Set.mem_insert_iff, Set.mem_ofPred_eq, List.mem_append, List.mem_singleton,
    or_and_right, exists_or, exists_eq_left, eq_comm (a := position)]
  exact or_rotate.symm

theorem addressed_subset_append (front back : List Access) :
    addressed front ⊆ addressed (front ++ back) := by
  rintro position (zero | ⟨access, present, here⟩)
  · exact .inl zero
  · exact .inr ⟨access, List.mem_append_left back present, here⟩

theorem exists_bounds_addressed (history : List Access) :
    ∃ low high, IsLeast (addressed history) low ∧ IsGreatest (addressed history) high := by
  induction history using List.reverseRecOn with
  | nil =>
      rw [addressed_nil]
      exact ⟨0, 0, isLeast_singleton, isGreatest_singleton⟩
  | append_singleton history access ih =>
      obtain ⟨low, high, least, greatest⟩ := ih
      rw [addressed_snoc]
      exact ⟨_, _, least.insert _, greatest.insert _⟩

namespace Tape

/-- The tape after a history of accesses, the earliest first. -/
def after (tape : Tape) (history : List Access) : Tape :=
  history.foldl Access.apply tape

theorem after_snoc (tape : Tape) (history : List Access) (access : Access) :
    tape.after (history ++ [access]) = access.apply (tape.after history) :=
  List.foldl_append

theorem cell_after_of_not_set {position : Int64} {history : List Access}
    (unset : ∀ bit, .set position bit ∉ history) (tape : Tape) :
    (tape.after history).cell position =
      (tape.cell position ^^ (history.count (.flip position)).bodd) := by
  induction history generalizing tape with
  | nil => simp [after]
  | cons access history ih =>
      have unsetLater : ∀ bit, .set position bit ∉ history :=
        fun bit present => unset bit (List.mem_cons_of_mem _ present)
      have split : tape.after (access :: history) = (access.apply tape).after history := rfl
      rw [split, ih unsetLater]
      by_cases here : access.position = position
      · subst here
        cases access with
        | get position =>
            have same : (Access.apply tape (.get position)).cell position = tape.cell position :=
              cell_visit ..
            rw [Access.position, same, List.count_cons_of_ne (by simp)]
        | set position bit => exact absurd List.mem_cons_self (unset bit)
        | flip position =>
            have toggled : (Access.apply tape (.flip position)).cell position =
                !tape.cell position := (cell_flip ..).trans (if_pos rfl)
            rw [Access.position, toggled, List.count_cons_self, Nat.bodd_succ]
            simp
      · have notFlip : access ≠ .flip position := by
          rintro rfl
          exact here rfl
        rw [Access.cell_apply_of_ne tape here, List.count_cons_of_ne notFlip]

/-- A position holds the bit that was last stored there, toggled by every flip since. -/
theorem cell_after_set {position : Int64} {back : List Access}
    (unset : ∀ other, .set position other ∉ back) (tape : Tape) (front : List Access) (bit : Bool) :
    (tape.after (front ++ .set position bit :: back)).cell position =
      (bit ^^ (back.count (.flip position)).bodd) := by
  have split : tape.after (front ++ .set position bit :: back) =
      ((tape.after front).set position bit).after back := by
    rw [after, List.foldl_append]
    rfl
  rw [split, cell_after_of_not_set unset, cell_set, if_pos rfl]

theorem covers_after {history : List Access} (close : Close (addressed history)) :
    (blank.after history).Covers (addressed history) := by
  induction history using List.reverseRecOn with
  | nil =>
      rw [addressed_nil]
      exact covers_blank
  | append_singleton history access ih =>
      have covers := ih (close.mono (addressed_subset_append history [access]))
      rw [addressed_snoc] at close ⊢
      rw [after_snoc]
      exact access.covers_apply covers close

/-- After any history of accesses a position holds the bit last stored there, toggled by every flip
since, and the tape reaches over exactly the addressed positions, in whatever order. -/
theorem accesses_keep_bits_and_extent (history : List Access) :
    (∀ position : Int64,
      ((∀ bit, .set position bit ∉ history) →
        ((blank.after history).get position).1 = (history.count (.flip position)).bodd) ∧
      (∀ front bit back, history = front ++ .set position bit :: back →
        (∀ other, .set position other ∉ back) →
          ((blank.after history).get position).1 = (bit ^^ (back.count (.flip position)).bodd)) ∧
      ((blank.after history).flip position).1 = !((blank.after history).get position).1 ∧
      ((blank.after (history ++ [.flip position])).get position).1 =
        ((blank.after history).flip position).1 ∧
      ∀ access : Access, access.position ≠ position →
        ((blank.after (history ++ [access])).get position).1 =
          ((blank.after history).get position).1) ∧
    ∃ low high, IsLeast (addressed history) low ∧ IsGreatest (addressed history) high ∧
      (high - low + 1 ≤ 2 ^ 63 - 1 →
        (blank.after history).length.toInt = high - low + 1 ∧
        ((blank.after history).bits.length : Int) = (blank.after history).length.toInt ∧
        (∀ position : Int64, low ≤ position.toInt → position.toInt ≤ high →
          ((blank.after history).index position).toInt = position.toInt - low ∧
          (blank.after history).bits[((blank.after history).index position).toInt.toNat]? =
            some ((blank.after history).get position).1) ∧
        (∀ other, addressed other = addressed history →
          (blank.after other).length = (blank.after history).length ∧
          ∀ position, (blank.after other).index position =
            (blank.after history).index position) ∧
        ∀ front back, history = front ++ back →
          (blank.after front).length.toInt ≤ (blank.after history).length.toInt) := by
  refine ⟨fun position => ⟨?_, ?_, rfl, ?_, ?_⟩, ?_⟩
  · intro unset
    have toggled := cell_after_of_not_set unset blank
    rwa [cell_blank, Bool.false_xor] at toggled
  · rintro front bit back rfl unset
    exact cell_after_set unset blank front bit
  · rw [after_snoc]
    exact (cell_flip ..).trans (if_pos rfl)
  · intro access elsewhere
    rw [after_snoc]
    exact access.cell_apply_of_ne _ elsewhere
  · obtain ⟨low, high, least, greatest⟩ := exists_bounds_addressed history
    refine ⟨low, high, least, greatest, fun fits => ?_⟩
    have close := close_of_bounds least greatest (by omega)
    have covers := covers_after close
    have lowest := least.unique covers.least
    have highest := greatest.unique covers.greatest
    have length := covers.toInt_length close
    refine ⟨by omega, by rw [covers.length_bits, length], ?_, ?_, ?_⟩
    · intro position reached before
      have index : ((blank.after history).index position).toInt = _ :=
        covers.toInt_index (by omega) (by omega) close
      exact ⟨by omega, covers.getElem?_bits (by omega) (by omega) close⟩
    · intro other same
      have coversToo := covers_after (same.symm ▸ close)
      rw [same] at coversToo
      obtain ⟨left, right⟩ := covers.extent_eq coversToo
      exact ⟨by rw [Tape.length, Tape.length, left, right],
        fun position => by rw [index, index, left]⟩
    · rintro front back rfl
      have subset := addressed_subset_append front back
      have earlier := covers_after (close.mono subset)
      obtain ⟨left, right⟩ := earlier.extent_le covers subset
      rw [length, earlier.toInt_length (close.mono subset)]
      omega

/-- Accesses that are as far apart as a word can count, with a stored bit that is flipped twice. -/
theorem accesses_reach_over_widest_extent :
    ∃ history : List Access,
      history = [.flip (-4611686018427387902), .set 4611686018427387904 true,
        .flip 4611686018427387904, .get 0, .flip 4611686018427387904] ∧
      ((blank.after history).get 4611686018427387904).1 = true ∧
      (blank.after history).length.toInt = 2 ^ 63 - 1 ∧
      ((blank.after history).index 4611686018427387904).toInt = 2 ^ 63 - 2 := by
  obtain ⟨history, named⟩ : ∃ history : List Access,
      history = [.flip (-4611686018427387902), .set 4611686018427387904 true,
        .flip 4611686018427387904, .get 0, .flip 4611686018427387904] := ⟨_, rfl⟩
  obtain ⟨bits, low, high, least, greatest, extent⟩ := accesses_keep_bits_and_extent history
  have within : ∀ access ∈ history, -4611686018427387902 ≤ access.position.toInt ∧
      access.position.toInt ≤ 4611686018427387904 := by
    rw [named]
    intro access present
    simp only [List.mem_cons, List.not_mem_nil, or_false] at present
    rcases present with rfl | rfl | rfl | rfl | rfl <;> decide
  obtain rfl : low = -4611686018427387902 := by
    refine least.unique ⟨.inr ⟨.flip (-4611686018427387902), by simp [named], by decide⟩, ?_⟩
    rintro position (rfl | ⟨access, present, rfl⟩)
    · decide
    · exact (within access present).1
  obtain rfl : high = 4611686018427387904 := by
    refine greatest.unique ⟨.inr ⟨.flip 4611686018427387904, by simp [named], by decide⟩, ?_⟩
    rintro position (rfl | ⟨access, present, rfl⟩)
    · decide
    · exact (within access present).2
  obtain ⟨length, -, indexed, -⟩ := extent (by decide)
  obtain ⟨-, stored, -⟩ := bits 4611686018427387904
  refine ⟨history, named, ?_, length, (indexed _ (by decide) (by decide)).1⟩
  exact stored [.flip (-4611686018427387902)] true
    [.flip 4611686018427387904, .get 0, .flip 4611686018427387904] named (by simp)

end Tape
end BitTape
