import BitTape.Proofs.Execution
import BitTape.Proofs.Steps

/-!
# What one instruction does

An instruction replaces the store of the machine, counts itself and goes on at a position.  The
lemmas below say so for an action and for the two brackets.
-/

namespace BitTape

namespace Instruction

/-- A bracket that goes on behind itself when it meets this bit. -/
def Passes (bracket : Instruction) (bit : Bool) : Prop :=
  bracket = loop ∧ bit = true ∨ bracket = close ∧ bit = false

/-- A bracket that goes on at its partner when it meets this bit. -/
def Jumps (bracket : Instruction) (bit : Bool) : Prop :=
  bracket = loop ∧ bit = false ∨ bracket = close ∧ bit = true

theorem passes_or_jumps {bracket : Instruction} (isBracket : bracket = loop ∨ bracket = close)
    (bit : Bool) : bracket.Passes bit ∨ bracket.Jumps bit := by
  rcases isBracket with rfl | rfl <;> cases bit <;> simp [Passes, Jumps]

end Instruction

namespace Machine

open Memory

def store (machine : Machine) : Store :=
  { tape := machine.tape, head := machine.head, input := machine.input, output := machine.output }

/-- The machine after an instruction that leaves a store and goes on at a position. -/
def goOn (machine : Machine) (store : Store) (counter : Int) : Machine :=
  { machine with
    tape := store.tape
    head := store.head
    input := store.input
    output := store.output
    counter
    executed := machine.executed + 1 }

@[simp]
theorem counter_goOn (machine : Machine) (store : Store) (counter : Int) :
    (machine.goOn store counter).counter = counter := rfl

@[simp]
theorem store_goOn (machine : Machine) (store : Store) (counter : Int) :
    (machine.goOn store counter).store = store := rfl

/-- The byte at the program counter. -/
def byte? (machine : Machine) : Option UInt8 :=
  machine.code[machine.counter.toNat]?

/-- The machine is about to execute a byte of its program. -/
structure Fetches (machine : Machine) (byte : UInt8) : Prop where
  nonneg : 0 ≤ machine.counter
  byte_eq : machine.byte? = some byte

theorem Fetches.isHalted {machine : Machine} {byte : UInt8} (fetches : machine.Fetches byte) :
    machine.isHalted = false := by
  obtain ⟨inside, _⟩ := Array.getElem?_eq_some_iff.mp fetches.byte_eq
  have nonneg := fetches.nonneg
  simp only [Machine.isHalted, decide_eq_false_iff_not]
  omega

theorem fetches_of_counter {machine : Machine} {byte : UInt8} {position : Nat}
    (counter : machine.counter = position) (present : machine.code[position]? = some byte) :
    machine.Fetches byte :=
  ⟨by omega, by simpa [byte?, counter] using present⟩

/-- What a machine executes next that has not left its program, unless its counter is negative. -/
theorem fetches_cases {machine : Machine} (nonneg : 0 ≤ machine.counter)
    (running : machine.isHalted = false) :
    (∃ action : Action, machine.Fetches action.symbol) ∨
      ∃ bracket : Instruction, (bracket = .loop ∨ bracket = .close) ∧
        machine.Fetches bracket.symbol := by
  simp only [isHalted, decide_eq_false_iff_not] at running
  have inside : machine.counter.toNat < machine.code.size := by omega
  have fetches : machine.Fetches machine.code[machine.counter.toNat] :=
    ⟨nonneg, by simp [byte?, inside]⟩
  rcases Action.byte_cases machine.code[machine.counter.toNat] with ⟨action, here⟩ | here | here
  · exact .inl ⟨action, here ▸ fetches⟩
  · exact .inr ⟨.loop, .inl rfl, here ▸ fetches⟩
  · exact .inr ⟨.close, .inr rfl, here ▸ fetches⟩

theorem step_of_fetches {machine : Machine} {byte : UInt8} (fetches : machine.Fetches byte) :
    machine.step =
      match Instruction.ofByte? byte with
      | some instruction => machine.execute instruction
      | none => .ok machine.advance := by
  have present := fetches.byte_eq
  rw [byte?] at present
  rw [step, if_neg (by have nonneg := fetches.nonneg; omega), present]
  rfl

theorem step_act {machine : Machine} {action : Action} (fetches : machine.Fetches action.symbol) :
    machine.step = .ok (machine.goOn (perform action machine.store) (machine.counter + 1)) := by
  rw [step_of_fetches fetches]
  cases action with
  | comment byte plain =>
      rw [Action.symbol, Action.instruction_comment plain]
      rfl
  | _ => rfl

theorem step_pass {machine : Machine} {bracket : Instruction}
    (fetches : machine.Fetches bracket.symbol) (passes : bracket.Passes machine.store.bit) :
    machine.step = .ok (machine.goOn machine.store.look (machine.counter + 1)) := by
  have cell : machine.tape.cell machine.head = machine.store.bit := rfl
  rw [step_of_fetches fetches, Instruction.ofByte?_symbol]
  rcases passes with ⟨rfl, isOne⟩ | ⟨rfl, isZero⟩
  · simp only [execute, Tape.get, cell, isOne, if_true]
    rfl
  · simp only [execute, Tape.get, cell, isZero, Bool.false_eq_true, if_false]
    rfl

theorem step_jump {machine : Machine} {bracket : Instruction} {target : Nat}
    (fetches : machine.Fetches bracket.symbol) (jumped : bracket.Jumps machine.store.bit)
    (linked : machine.jumps.target? machine.counter = some target) :
    machine.step = .ok (machine.goOn machine.store.look target) := by
  have cell : machine.tape.cell machine.head = machine.store.bit := rfl
  rw [step_of_fetches fetches, Instruction.ofByte?_symbol]
  rcases jumped with ⟨rfl, isZero⟩ | ⟨rfl, isOne⟩
  · simp only [execute, Tape.get, cell, isZero, Bool.false_eq_true, if_false, jump, linked]
    rfl
  · simp only [execute, Tape.get, cell, isOne, if_true, jump, linked]
    rfl

end Machine
end BitTape
