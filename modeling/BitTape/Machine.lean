import BitTape.Bits
import BitTape.JumpTable
import BitTape.Tape

/-!
# The machine

A machine executes the bytes of its program one by one.  A bracket that jumps lands on its partner,
which is executed next and falls through.  `Machine.step` is one instruction and `Machine.runFor` a
bounded number of them.  A machine whose program and jump table disagree, or whose program counter
is negative, may crash; the crash holds the state in which it happened.
-/

namespace BitTape

/-- The whole state of a run. -/
structure Machine where
  code : Array UInt8
  /-- Where the brackets of the program jump. -/
  jumps : JumpTable
  /-- Position of the next instruction. -/
  counter : Int
  tape : Tape
  /-- Tape position of the head. -/
  head : Int64
  input : InputBits
  /-- Output bits, in the order in which they were written. -/
  output : Array Bool
  /-- Number of instructions executed by the current run. -/
  executed : Nat
  deriving DecidableEq

/-- Why an instruction cannot be executed. -/
inductive Fault where
  /-- A bracket has to jump and its position has no target. -/
  | noTarget (bracket : Instruction)
  /-- The program counter is negative. -/
  | outOfRange (error : OutOfRange)
  deriving DecidableEq

/-- How a fault is reported. -/
def Fault.message : Fault → Bytes
  | noTarget bracket => text "no jump target for '" ++ [bracket.symbol] ++ text "'"
  | outOfRange error => error.message

/-- A fault and the state in which it happened. -/
structure Crash where
  fault : Fault
  /-- The state, with the program counter at the offending instruction. -/
  machine : Machine
  deriving DecidableEq

namespace Machine

/-- Index of the head from the leftmost visited cell. -/
def pointer (machine : Machine) : Int64 :=
  machine.tape.index machine.head

/-- The program has been left at its end. -/
def isHalted (machine : Machine) : Bool :=
  machine.code.size ≤ machine.counter

/-- The bytes of the output. -/
def outputBytes (machine : Machine) : Bytes :=
  unpack machine.output.toList

/-- Count an instruction and go on at a position. -/
def goTo (machine : Machine) (counter : Int) : Machine :=
  { machine with counter, executed := machine.executed + 1 }

/-- Count an instruction and go on behind it. -/
def advance (machine : Machine) : Machine :=
  machine.goTo (machine.counter + 1)

/-- Jump from a bracket to its partner. -/
def jump (machine : Machine) (bracket : Instruction) : Except Crash Machine :=
  match machine.jumps.target? machine.counter with
  | some target => .ok (machine.goTo target)
  | none => .error ⟨.noTarget bracket, machine⟩

/-- Move the head and visit the cell where it arrives. -/
def moveTo (machine : Machine) (head : Int64) : Machine :=
  { machine with head, tape := machine.tape.visit head }

/-- Carry out one instruction. -/
def execute (machine : Machine) : Instruction → Except Crash Machine
  | .flip =>
      .ok { machine with tape := (machine.tape.flip machine.head).2 }.advance
  | .read =>
      let (bit, input) := machine.input.next
      .ok { machine with input, tape := machine.tape.set machine.head bit }.advance
  | .write =>
      let (bit, tape) := machine.tape.get machine.head
      .ok { machine with tape, output := machine.output.push bit }.advance
  | .left => .ok (machine.moveTo (machine.head - 1)).advance
  | .right => .ok (machine.moveTo (machine.head + 1)).advance
  | .loop =>
      let (bit, tape) := machine.tape.get machine.head
      let visited := { machine with tape }
      if bit then .ok visited.advance else visited.jump .loop
  | .close =>
      let (bit, tape) := machine.tape.get machine.head
      let visited := { machine with tape }
      if bit then visited.jump .close else .ok visited.advance

/-- Execute the byte at the program counter; a comment is passed over and counted. -/
def step (machine : Machine) : Except Crash Machine :=
  if machine.counter < 0 then
    .error ⟨.outOfRange ⟨machine.counter⟩, machine⟩
  else
    match machine.code[machine.counter.toNat]? >>= Instruction.ofByte? with
    | some instruction => machine.execute instruction
    | none => .ok machine.advance

/-- Run to the end of the program or to a fault, if that needs at most `steps` instructions. -/
def runFor : (steps : Nat) → Machine → Option (Except Crash Machine)
  | 0, machine => if machine.isHalted then some (.ok machine) else none
  | steps + 1, machine =>
      if machine.isHalted then
        some (.ok machine)
      else
        match machine.step with
        | .ok next => runFor steps next
        | .error crash => some (.error crash)

theorem runFor_of_isHalted {machine : Machine} (halted : machine.isHalted = true) (steps : Nat) :
    machine.runFor steps = some (.ok machine) := by
  cases steps <;> simp [runFor, halted]

/-- A run that has an answer keeps it when more steps are allowed. -/
theorem runFor_add {machine : Machine} {steps : Nat} {answer : Except Crash Machine}
    (answered : machine.runFor steps = some answer) (more : Nat) :
    machine.runFor (steps + more) = some answer := by
  induction steps generalizing machine with
  | zero =>
      cases halted : machine.isHalted with
      | true => rw [runFor_of_isHalted halted] at answered ⊢; exact answered
      | false => simp [runFor, halted] at answered
  | succ steps ih =>
      rw [Nat.succ_add]
      cases halted : machine.isHalted with
      | true => rw [runFor_of_isHalted halted] at answered ⊢; exact answered
      | false =>
          cases stepped : machine.step with
          | ok next =>
              simp only [runFor, halted, stepped, Bool.false_eq_true, if_false] at answered ⊢
              exact ih answered
          | error crash =>
              simp only [runFor, halted, stepped, Bool.false_eq_true, if_false] at answered ⊢
              exact answered

/-- Start a run at the present program counter. -/
def run (steps : Nat) (machine : Machine) : Option (Except Crash Machine) :=
  runFor steps { machine with executed := 0 }

end Machine

namespace Crash

/-- Where a crash happened. -/
def context (crash : Crash) : Bytes :=
  let machine := crash.machine
  text "recovered error @pc=" ++ signedDecimal machine.counter ++ text "/" ++
    decimal machine.code.size ++ text ", pointer " ++ signedDecimal machine.pointer.toInt ++
    text "/" ++ signedDecimal machine.tape.length.toInt

/-- How a crash is reported. -/
def message (crash : Crash) : Bytes :=
  crash.context ++ text ": " ++ crash.fault.message

end Crash
end BitTape
