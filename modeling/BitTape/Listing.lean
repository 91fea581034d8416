import BitTape.Instruction

/-!
# Listings

A listing has a line for every maximal run of equal instructions, with its address, the mnemonic
and, from two on, the length of the run.  `pieceAt` gives the run at a position by itself, and
`spelling` walks through a program in such pieces; their text is an assembly source.
-/

namespace BitTape

/-- A maximal sequence of equal instructions. -/
structure Run where
  /-- Position of the first instruction. -/
  start : Nat
  instruction : Instruction
  length : Nat
  deriving DecidableEq

namespace Run

/-- Position behind the last instruction. -/
def stop (run : Run) : Nat :=
  run.start + run.length

/-- A run as assembly source, in the chunks in which it is written. -/
def chunks (run : Run) : List Bytes :=
  run.instruction.mnemonic ::
    if 1 < run.length then [text "*", decimal run.length] else []

/-- An address: at least one space, and as many as make the width six. -/
def address (position : Nat) : Bytes :=
  let digits := decimal position
  List.replicate (max 1 (6 - digits.length)) (ascii ' ') ++ digits

/-- A line of a listing. -/
def line (run : Run) : List Bytes :=
  (address run.start ++ text "\t") :: run.chunks ++ [text "\n"]

end Run

/-- A part of a program: a run of equal instructions, or a comment. -/
structure Segment where
  /-- The instruction, unless the part is a comment. -/
  instruction : Option Instruction
  length : Nat
  deriving DecidableEq

/-- The segment at the start of a program, and the number of bytes it takes up after the first. -/
def Segment.cut (byte : UInt8) (rest : Bytes) : Segment × Nat :=
  match Instruction.ofByte? byte with
  | some instruction =>
      let more := rest.findIdx (· != byte)
      (⟨some instruction, more + 1⟩, more)
  | none =>
      let more := rest.findIdx isInstruction
      (⟨none, more + 1⟩, more)

/-- The segments of a program. -/
def segments (program : Bytes) : List Segment :=
  pieces Segment.cut program

/-- The runs of a program, in order. -/
def runs (program : Bytes) : List Run :=
  let place : Nat × Array Run → Segment → Nat × Array Run := fun (start, found) segment =>
    (start + segment.length,
      match segment.instruction with
      | some instruction => found.push ⟨start, instruction, segment.length⟩
      | none => found)
  ((segments program).foldl place (0, #[])).2.toList

/-- The listing of a program. -/
def listing (program : Bytes) : List Bytes :=
  (runs program).flatMap Run.line

/-- The rest of the run of equal instructions at or after a position. -/
def runAt? (program : Bytes) (position : Nat) : Option Run :=
  let rest := program.drop position
  let gap := rest.findIdx isInstruction
  match rest.drop gap with
  | [] => none
  | byte :: more =>
      (Instruction.ofByte? byte).map fun instruction =>
        { start := position + gap, instruction, length := more.findIdx (· != byte) + 1 }

/-- The run at or after a position as assembly source, and the position behind it; without a run, no
text and the end of the program. -/
def pieceAt (program : Bytes) (position : Nat) : Nat × List Bytes :=
  match runAt? program position with
  | some run => (run.stop, run.chunks)
  | none => (program.length, [])

/-- `pieceAt` for a position that may be negative, which is out of range. -/
def pieceAt? (program : Bytes) : Int → Except OutOfRange (Nat × List Bytes)
  | .ofNat position => .ok (pieceAt program position)
  | .negSucc before => .error ⟨.negSucc before⟩

/-- Walk through a program from a position, in at most `steps` pieces. -/
def spellingFrom (program : Bytes) : (steps position : Nat) → List (Nat × Bytes)
  | 0, _ => []
  | steps + 1, position =>
      if position < program.length then
        let (next, chunks) := pieceAt program position
        (next, chunks.flatten) :: spellingFrom program steps next
      else
        []

/-- The pieces of a program, each with the position behind it. -/
def spelling (program : Bytes) : List (Nat × Bytes) :=
  spellingFrom program program.length 0

/-- A program as assembly source: its pieces, each with a space after it. -/
def spelled (program : Bytes) : Bytes :=
  (spelling program).flatMap fun (_, piece) => piece ++ text " "

end BitTape
