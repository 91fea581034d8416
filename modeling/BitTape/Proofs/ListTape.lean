import BitTape.Proofs.Cells

/-!
# A tape as one list

The visited cells of a tape form a list, with the head at an index.  Moving left from index zero
puts a new cell in front, so every cell gets another index; moving right from the last cell adds a
cell at the end.  `ListTape.Shows` relates such a list to a two-sided tape, and every operation of
the one is followed by the same operation of the other as long as the tape is shorter than the
range of a word.
-/

namespace BitTape

/-- The visited cells from left to right and the index of the head. -/
structure ListTape where
  cells : List Bool
  index : Nat
  deriving DecidableEq

namespace ListTape

/-- One zero cell, under the head. -/
def blank : ListTape :=
  { cells := [false], index := 0 }

def bit (list : ListTape) : Bool :=
  list.cells.getD list.index false

def write (list : ListTape) (bit : Bool) : ListTape :=
  { list with cells := list.cells.set list.index bit }

/-- Move the head to the left; at index zero a zero cell is put in front. -/
def left : ListTape → ListTape
  | ⟨cells, 0⟩ => ⟨false :: cells, 0⟩
  | ⟨cells, index + 1⟩ => ⟨cells, index⟩

/-- Move the head to the right; at the last cell a zero cell is added at the end. -/
def right (list : ListTape) : ListTape :=
  if list.index + 1 < list.cells.length then
    { list with index := list.index + 1 }
  else
    { cells := list.cells ++ [false], index := list.index + 1 }

@[simp]
theorem length_write (list : ListTape) (bit : Bool) :
    (list.write bit).cells.length = list.cells.length := by
  simp [write]

/-- Cells keep their number, or one zero cell is new at either end. -/
def Grows (before after : List Bool) : Prop :=
  after.length = before.length ∨ after = false :: before ∨ after = before ++ [false]

theorem Grows.length_le {before after : List Bool} (grows : Grows before after) :
    after.length ≤ before.length + 1 := by
  rcases grows with same | rfl | rfl
  · omega
  · simp
  · simp

theorem grows_write (list : ListTape) (bit : Bool) : Grows list.cells (list.write bit).cells :=
  .inl (list.length_write bit)

theorem grows_left (list : ListTape) : Grows list.cells list.left.cells := by
  obtain ⟨cells, index⟩ := list
  cases index with
  | zero => exact .inr (.inl rfl)
  | succ index => exact .inl rfl

theorem grows_right (list : ListTape) : Grows list.cells list.right.cells := by
  rw [right]
  split
  · exact .inl rfl
  · exact .inr (.inr rfl)

/-- The list has the visited cells of a tape and its index is the position of the head. -/
structure Shows (list : ListTape) (tape : Tape) (head : Int64) : Prop where
  /-- The left extent is a count. -/
  left_nonneg : 0 ≤ tape.leftExtent.toInt
  /-- The cell at position zero is visited. -/
  right_pos : 0 < tape.rightExtent.toInt
  /-- All visited cells are listed. -/
  length_eq : (list.cells.length : Int) = tape.leftExtent.toInt + tape.rightExtent.toInt
  /-- The index counts from the leftmost visited cell. -/
  index_eq : (list.index : Int) = head.toInt + tape.leftExtent.toInt
  /-- The head is on the tape. -/
  index_lt : list.index < list.cells.length
  /-- The listed bits are those of the visited cells. -/
  cells_eq : ∀ place, place < list.cells.length →
    list.cells[place]? = some (tape.bitAt (place - tape.leftExtent.toInt))
  /-- All other cells are zero. -/
  clear : ∀ position, position < -tape.leftExtent.toInt ∨ tape.rightExtent.toInt ≤ position →
    tape.bitAt position = false

theorem shows_blank : blank.Shows .blank 0 where
  left_nonneg := by decide
  right_pos := by decide
  length_eq := by decide
  index_eq := by decide
  index_lt := by decide
  cells_eq place inside := by
    obtain rfl : place = 0 := by simpa [blank] using inside
    rfl
  clear position _ := Tape.bitAt_blank position

namespace Shows

variable {list : ListTape} {tape : Tape} {head : Int64}

theorem visit_head (shows : list.Shows tape head) : tape.visit head = tape := by
  obtain ⟨left_nonneg, -, length_eq, index_eq, index_lt, -, -⟩ := shows
  have negated : (-tape.leftExtent).toInt = -tape.leftExtent.toInt :=
    toInt_neg_of_fits (by omega)
  have inRight : ¬tape.rightExtent ≤ head := by
    rw [Int64.le_iff_toInt_le]
    omega
  have inLeft : ¬head < -tape.leftExtent := by
    rw [Int64.lt_iff_toInt_lt, negated]
    omega
  rw [Tape.visit, if_neg inRight, if_neg inLeft]

theorem visit (shows : list.Shows tape head) : list.Shows (tape.visit head) head := by
  rw [shows.visit_head]
  exact shows

theorem cell_head (shows : list.Shows tape head) : tape.cell head = list.bit := by
  have here := shows.cells_eq list.index shows.index_lt
  have place : (list.index : Int) - tape.leftExtent.toInt = head.toInt := by
    have index_eq := shows.index_eq
    omega
  rw [place, Tape.bitAt_toInt] at here
  simp [bit, here]

theorem bits_eq (shows : list.Shows tape head) : tape.bits = list.cells := by
  obtain ⟨left_nonneg, right_pos, length_eq, -, -, cells_eq, -⟩ := shows
  have length : tape.bits.length = list.cells.length := by
    rw [Tape.length_bits]
    omega
  apply List.ext_getElem?
  intro place
  by_cases inside : place < list.cells.length
  · rw [cells_eq place inside, tape.getElem?_bits left_nonneg (by omega)]
  · rw [List.getElem?_eq_none (by omega), List.getElem?_eq_none (by omega)]

theorem write (shows : list.Shows tape head) (bit : Bool) :
    (list.write bit).Shows (tape.set head bit) head := by
  have visited := shows.visit_head
  obtain ⟨left_nonneg, right_pos, length_eq, index_eq, index_lt, cells_eq, clear⟩ := shows
  constructor
  case cells_eq =>
    intro place inside
    rw [length_write] at inside
    rw [Tape.bitAt_set, Tape.leftExtent_set, visited, ListTape.write, List.getElem?_set]
    by_cases here : list.index = place
    · subst here
      rw [if_pos rfl, if_pos index_lt, if_pos (by omega)]
    · rw [if_neg here, if_neg (by omega), cells_eq place inside]
  case clear =>
    intro position outside
    rw [Tape.leftExtent_set, Tape.rightExtent_set, visited] at outside
    rw [Tape.bitAt_set, if_neg (by omega), clear position outside]
  all_goals simpa [visited, ListTape.write]

theorem flip (shows : list.Shows tape head) :
    (list.write (!list.bit)).Shows (tape.flip head).2 head := by
  have stored : (tape.flip head).2 = tape.set head (!list.bit) := by
    simp [Tape.flip, Tape.set, shows.cell_head]
  rw [stored]
  exact shows.write _

theorem toInt_index (shows : list.Shows tape head) (short : list.cells.length < 2 ^ 63) :
    (tape.index head).toInt = list.index := by
  obtain ⟨-, -, -, index_eq, index_lt, -, -⟩ := shows
  rw [Tape.index, toInt_add_of_fits (by omega) (by omega), index_eq]

theorem toInt_length (shows : list.Shows tape head) (short : list.cells.length < 2 ^ 63) :
    tape.length.toInt = list.cells.length := by
  obtain ⟨left_nonneg, right_pos, length_eq, -, -, -, -⟩ := shows
  rw [Tape.length, toInt_add_of_fits (by omega) (by omega), length_eq]

theorem reindex (shows : list.Shows tape head) {index : Nat} {moved : Int64}
    (index_eq : (index : Int) = moved.toInt + tape.leftExtent.toInt)
    (index_lt : index < list.cells.length) :
    ListTape.Shows ⟨list.cells, index⟩ (tape.visit moved) moved := by
  have kept : ListTape.Shows ⟨list.cells, index⟩ tape moved :=
    { shows with index_eq, index_lt }
  exact kept.visit

theorem toInt_head_sub (shows : list.Shows tape head) (short : list.cells.length < 2 ^ 63 - 1) :
    (head - 1).toInt = head.toInt - 1 := by
  obtain ⟨-, right_pos, length_eq, index_eq, -, -, -⟩ := shows
  exact toInt_sub_one (by omega)

theorem toInt_head_add (shows : list.Shows tape head) (short : list.cells.length < 2 ^ 63 - 1) :
    (head + 1).toInt = head.toInt + 1 := by
  obtain ⟨left_nonneg, -, length_eq, index_eq, index_lt, -, -⟩ := shows
  exact toInt_add_one (by omega)

/-- A tape that is longer on both sides and has the same bits shows zero cells at the ends. -/
theorem extend (shows : list.Shows tape head) (before after : Nat) {wider : Tape} {moved : Int64}
    {index : Nat} (sameBits : ∀ position, wider.bitAt position = tape.bitAt position)
    (left : wider.leftExtent.toInt = tape.leftExtent.toInt + before)
    (right : wider.rightExtent.toInt = tape.rightExtent.toInt + after)
    (index_eq : (index : Int) = moved.toInt + wider.leftExtent.toInt)
    (index_lt : index < before + list.cells.length + after) :
    ListTape.Shows
      ⟨List.replicate before false ++ list.cells ++ List.replicate after false, index⟩
      wider moved := by
  obtain ⟨left_nonneg, right_pos, length_eq, -, -, cells_eq, clear⟩ := shows
  refine ⟨by omega, by omega, ?_, index_eq, ?_, ?_, ?_⟩
  · simp only [List.length_append, List.length_replicate]
    omega
  · simpa only [List.length_append, List.length_replicate] using index_lt
  · intro place inside
    simp only [List.length_append, List.length_replicate] at inside
    rw [sameBits, left, List.append_assoc]
    by_cases front : place < before
    · rw [List.getElem?_append_left (by simpa using front), List.getElem?_replicate, if_pos front,
        clear _ (by omega)]
    · rw [List.getElem?_append_right (by simpa using front), List.length_replicate]
      by_cases old : place - before < list.cells.length
      · rw [List.getElem?_append_left old, cells_eq _ old]
        congr 2
        omega
      · rw [List.getElem?_append_right (by omega), List.getElem?_replicate, if_pos (by omega),
          clear _ (by omega)]
  · intro position outside
    rw [sameBits]
    exact clear position (by omega)

theorem left (shows : list.Shows tape head) (short : list.cells.length < 2 ^ 63 - 1) :
    list.left.Shows (tape.visit (head - 1)) (head - 1) := by
  have moved := shows.toInt_head_sub short
  obtain ⟨left_nonneg, right_pos, length_eq, index_eq, index_lt, -, -⟩ := id shows
  obtain ⟨cells, index⟩ := list
  simp only at short length_eq index_eq index_lt
  cases index with
  | succ index => exact shows.reindex (by omega) (by simp only; omega)
  | zero =>
      have grown : (tape.visit (head - 1)).leftExtent.toInt = tape.leftExtent.toInt + 1 := by
        rw [tape.toInt_leftExtent_visit (head - 1) (by omega) left_nonneg (by omega)]
        omega
      have kept : (tape.visit (head - 1)).rightExtent.toInt = tape.rightExtent.toInt := by
        rw [tape.toInt_rightExtent_visit (head - 1) (by omega)]
        omega
      have atFront : ((0 : Nat) : Int) =
          (head - 1).toInt + (tape.visit (head - 1)).leftExtent.toInt := by omega
      have extended := shows.extend 1 0 (tape.bitAt_visit (head - 1)) grown
        (kept.trans (Int.add_zero _).symm) atFront (by omega)
      rw [List.replicate_zero, List.append_nil] at extended
      exact extended

theorem right (shows : list.Shows tape head) (short : list.cells.length < 2 ^ 63 - 1) :
    list.right.Shows (tape.visit (head + 1)) (head + 1) := by
  have moved := shows.toInt_head_add short
  obtain ⟨left_nonneg, right_pos, length_eq, index_eq, index_lt, -, -⟩ := id shows
  rw [ListTape.right]
  split
  · rename_i inside
    exact shows.reindex (by omega) inside
  · rename_i atEnd
    have grown : (tape.visit (head + 1)).rightExtent.toInt = tape.rightExtent.toInt + 1 := by
      rw [tape.toInt_rightExtent_visit (head + 1) (by omega)]
      omega
    have kept : (tape.visit (head + 1)).leftExtent.toInt = tape.leftExtent.toInt := by
      rw [tape.toInt_leftExtent_visit (head + 1) (by omega) left_nonneg (by omega)]
      omega
    exact shows.extend 0 1 (tape.bitAt_visit (head + 1)) (kept.trans (Int.add_zero _).symm) grown
      (by omega) (by omega)

end Shows
end ListTape
end BitTape
