import BitTape.Bytes

/-!
# Instructions

A program is a byte string.  Seven bytes are instructions; every other byte is a comment.  Every
instruction has a mnemonic, by which listings name it, and some have another name that a source may
use.
-/

namespace BitTape

/-- What one instruction byte asks of the machine. -/
inductive Instruction where
  /-- Toggle the bit under the head. -/
  | flip
  /-- Store the next input bit under the head. -/
  | read
  /-- Append the bit under the head to the output. -/
  | write
  /-- Move the head one cell to the left. -/
  | left
  /-- Move the head one cell to the right. -/
  | right
  /-- Start of a loop body: skipped over a zero bit. -/
  | loop
  /-- End of a loop body: repeated over a one bit. -/
  | close
  deriving DecidableEq

namespace Instruction

/-- All instructions. -/
def all : List Instruction :=
  [flip, read, write, left, right, loop, close]

/-- The byte that stands for an instruction. -/
def symbol : Instruction → UInt8
  | flip => ascii '+'
  | read => ascii ','
  | write => ascii ';'
  | left => ascii '<'
  | right => ascii '>'
  | loop => ascii '['
  | close => ascii ']'

/-- The instruction that a byte stands for, if it is not a comment. -/
def ofByte? (byte : UInt8) : Option Instruction :=
  all.find? fun instruction => instruction.symbol == byte

theorem ofByte?_symbol (instruction : Instruction) :
    ofByte? instruction.symbol = some instruction := by
  cases instruction <;> rfl

theorem ofByte?_eq_some_iff {byte : UInt8} {instruction : Instruction} :
    ofByte? byte = some instruction ↔ instruction.symbol = byte := by
  constructor
  · intro found
    simpa using List.find?_some found
  · rintro rfl
    exact ofByte?_symbol instruction

/-- The name of an instruction in listings. -/
def mnemonic : Instruction → Bytes
  | flip => text "flip"
  | read => text "read"
  | write => text "write"
  | left => text "left"
  | right => text "right"
  | loop => text "loop"
  | close => text "end"

/-- Another name of an instruction, if it has one. -/
def otherName? : Instruction → Option Bytes
  | read => some (text "in")
  | write => some (text "out")
  | loop => some (text "while")
  | close => some (text "repeat")
  | _ => none

/-- The instruction of a given name. -/
def ofName? (name : Bytes) : Option Instruction :=
  all.find? fun instruction =>
    instruction.mnemonic == name || instruction.otherName? == some name

end Instruction

/-- A position before the start of a program. -/
structure OutOfRange where
  position : Int
  deriving DecidableEq

/-- How a position out of range is reported. -/
def OutOfRange.message (error : OutOfRange) : Bytes :=
  text "runtime error: index out of range [" ++ signedDecimal error.position ++ text "]"

/-- A byte that is an instruction. -/
def isInstruction (byte : UInt8) : Bool :=
  (Instruction.ofByte? byte).isSome

/-- A program without its comments. -/
def strip (program : Bytes) : Bytes :=
  program.filter isInstruction

end BitTape
