/-!
# The tape

A tape has a cell for every signed 64-bit position, all of them zero at first.  Its extent is the
part that has been visited: it starts with the cell at position zero and grows to either side.
Positions, extents and indices are machine words, so their arithmetic wraps around.
-/

namespace BitTape

/-- A two-sided tape of bits. -/
structure Tape where
  /-- The set of one cells at positions `0, 1, …`: bit `n` is the cell at position `n`. -/
  rightCells : Nat
  /-- The set of one cells at positions `-1, -2, …`: bit `n` is the cell at position `-n - 1`. -/
  leftCells : Nat
  /-- Number of visited cells at positions `0, 1, …`. -/
  rightExtent : Int64
  /-- Number of visited cells at positions `-1, -2, …`. -/
  leftExtent : Int64
  deriving DecidableEq

namespace Tape

/-- The tape with one visited cell, at position zero. -/
def blank : Tape :=
  { rightCells := 0, leftCells := 0, rightExtent := 1, leftExtent := 0 }

/-- Number of visited cells. -/
def length (tape : Tape) : Int64 :=
  tape.leftExtent + tape.rightExtent

/-- Distance of a position from the leftmost visited cell. -/
def index (tape : Tape) (position : Int64) : Int64 :=
  position + tape.leftExtent

/-- Extend the visited part to a position. -/
def visit (tape : Tape) (position : Int64) : Tape :=
  if tape.rightExtent ≤ position then
    { tape with rightExtent := position + 1 }
  else if position < -tape.leftExtent then
    { tape with leftExtent := -position }
  else
    tape

/-- The bit number that holds a position in the set of its side. -/
def slot (position : Int64) : Nat :=
  if 0 ≤ position then position.toNatClampNeg else (-(position + 1)).toNatClampNeg

/-- The bit at a position, visited or not. -/
def cell (tape : Tape) (position : Int64) : Bool :=
  if 0 ≤ position then tape.rightCells.testBit (slot position)
  else tape.leftCells.testBit (slot position)

@[simp]
theorem cell_blank (position : Int64) : blank.cell position = false := by
  simp [cell, blank]

/-- A visit changes no cell. -/
@[simp]
theorem cell_visit (tape : Tape) (visited position : Int64) :
    (tape.visit visited).cell position = tape.cell position := by
  unfold visit
  split
  · rfl
  · split <;> rfl

/-- Toggle the bit at a position, without a visit. -/
def toggle (tape : Tape) (position : Int64) : Tape :=
  if 0 ≤ position then
    { tape with rightCells := tape.rightCells ^^^ (1 <<< slot position) }
  else
    { tape with leftCells := tape.leftCells ^^^ (1 <<< slot position) }

/-- Visit a position and read its bit. -/
def get (tape : Tape) (position : Int64) : Bool × Tape :=
  (tape.cell position, tape.visit position)

/-- Visit a position and store a bit there. -/
def set (tape : Tape) (position : Int64) (bit : Bool) : Tape :=
  if tape.cell position = bit then tape.visit position
  else (tape.visit position).toggle position

/-- Visit a position and toggle its bit, which is returned as it is afterwards. -/
def flip (tape : Tape) (position : Int64) : Bool × Tape :=
  (!tape.cell position, (tape.visit position).toggle position)

/-- The visited cells from left to right. -/
def bits (tape : Tape) : List Bool :=
  ((List.range tape.leftExtent.toNatClampNeg).map tape.leftCells.testBit).reverse ++
    (List.range tape.rightExtent.toNatClampNeg).map tape.rightCells.testBit

end Tape
end BitTape
