import BitTape.Proofs.ListTape
import BitTape.Proofs.Safety

/-!
# The machine with one list

`ListMachine` executes a program on a tape that is a single list with an index.  After any number of
instructions below `2 ^ 62` the machine with the two-sided tape shows the same bits, pointer, input,
output and program counter.
-/

namespace BitTape

/-- The state of a run on a single list of cells. -/
structure ListMachine where
  counter : Int
  tape : ListTape
  input : InputBits
  output : List Bool
  deriving DecidableEq

namespace ListMachine

/-- The start of a program: one zero cell and nothing written. -/
def start (input : Bytes) : ListMachine :=
  { counter := 0, tape := .blank, input := .ofBytes input, output := [] }

def advance (machine : ListMachine) : ListMachine :=
  { machine with counter := machine.counter + 1 }

def jump (jumps : JumpTable) (machine : ListMachine) : Option ListMachine :=
  (jumps.target? machine.counter).map fun target => { machine with counter := target }

/-- Carry out one instruction. -/
def execute (jumps : JumpTable) (machine : ListMachine) : Instruction → Option ListMachine
  | .flip => some { machine with tape := machine.tape.write (!machine.tape.bit) }.advance
  | .read =>
      let (bit, input) := machine.input.next
      some { machine with tape := machine.tape.write bit, input }.advance
  | .write => some { machine with output := machine.output ++ [machine.tape.bit] }.advance
  | .left => some { machine with tape := machine.tape.left }.advance
  | .right => some { machine with tape := machine.tape.right }.advance
  | .loop => if machine.tape.bit then some machine.advance else machine.jump jumps
  | .close => if machine.tape.bit then machine.jump jumps else some machine.advance

/-- Execute the byte at the program counter; other bytes than instructions are passed over. -/
def step (program : Bytes) (jumps : JumpTable) (machine : ListMachine) : Option ListMachine :=
  match program[machine.counter.toNat]? >>= Instruction.ofByte? with
  | some instruction => machine.execute jumps instruction
  | none => some machine.advance

/-- The state after a number of instructions, or at the end of the program if that comes first. -/
def proceed (program : Bytes) (jumps : JumpTable) : (steps : Nat) → ListMachine → Option ListMachine
  | 0, machine => some machine
  | steps + 1, machine =>
      if program.length ≤ machine.counter then
        some machine
      else
        machine.step program jumps >>= proceed program jumps steps

/-- The machine with the two-sided tape shows what the machine with the list holds. -/
structure Shows (list : ListMachine) (machine : Machine) : Prop where
  counter_eq : machine.counter = list.counter
  tape_shows : list.tape.Shows machine.tape machine.head
  input_eq : machine.input = list.input
  output_eq : machine.output.toList = list.output

theorem step_of_present {program : Bytes} {jumps : JumpTable} {list : ListMachine} {byte : UInt8}
    (present : program[list.counter.toNat]? = some byte) :
    list.step program jumps =
      match Instruction.ofByte? byte with
      | some instruction => list.execute jumps instruction
      | none => some list.advance := by
  rw [step, present]
  rfl

theorem execute_pass {jumps : JumpTable} {list : ListMachine} {bracket : Instruction}
    (passes : bracket.Passes list.tape.bit) : list.execute jumps bracket = some list.advance := by
  rcases passes with ⟨rfl, isOne⟩ | ⟨rfl, isZero⟩
  · simp [execute, isOne]
  · simp [execute, isZero]

theorem execute_jump {jumps : JumpTable} {list : ListMachine} {bracket : Instruction} {target : Nat}
    (jumped : bracket.Jumps list.tape.bit) (linked : jumps.target? list.counter = some target) :
    list.execute jumps bracket = some { list with counter := target } := by
  rcases jumped with ⟨rfl, isZero⟩ | ⟨rfl, isOne⟩
  · simp [execute, isZero, jump, linked]
  · simp [execute, isOne, jump, linked]

section Simulation

variable {program : Bytes} {list : ListMachine} {machine : Machine}

theorem Shows.present (shows : list.Shows machine) (sound : machine.Sound program) {byte : UInt8}
    (fetches : machine.Fetches byte) : program[list.counter.toNat]? = some byte := by
  simpa [Machine.byte?, sound.code_eq, shows.counter_eq] using fetches.byte_eq

theorem Shows.act (shows : list.Shows machine) (sound : machine.Sound program) {action : Action}
    (fetches : machine.Fetches action.symbol) (short : list.tape.cells.length < 2 ^ 63 - 1) :
    ∃ next after, machine.step = .ok next ∧ list.step program machine.jumps = some after ∧
      after.Shows next ∧ ListTape.Grows list.tape.cells after.tape.cells := by
  rw [Machine.step_act fetches, step_of_present (shows.present sound fetches)]
  obtain ⟨counter_eq, tape_shows, input_eq, output_eq⟩ := shows
  have behind : machine.counter + 1 = list.counter + 1 := by rw [counter_eq]
  cases action with
  | flip =>
      exact ⟨_, _, rfl, rfl, ⟨behind, tape_shows.flip, input_eq, output_eq⟩,
        list.tape.grows_write _⟩
  | read =>
      refine ⟨_, _, rfl, rfl, ⟨behind, ?_, ?_, output_eq⟩, list.tape.grows_write _⟩
      · simp only [Machine.goOn, Memory.perform, Store.perform, Machine.store, advance, input_eq]
        exact tape_shows.write _
      · exact congrArg (fun input => input.next.2) input_eq
  | write =>
      refine ⟨_, _, rfl, rfl, ⟨behind, ?_, input_eq, ?_⟩, .inl rfl⟩
      · exact tape_shows.visit
      · simp [Machine.goOn, Memory.perform, Store.perform, Machine.store, advance, output_eq,
          tape_shows.cell_head]
  | left =>
      exact ⟨_, _, rfl, rfl, ⟨behind, tape_shows.left short, input_eq, output_eq⟩,
        list.tape.grows_left⟩
  | right =>
      exact ⟨_, _, rfl, rfl, ⟨behind, tape_shows.right short, input_eq, output_eq⟩,
        list.tape.grows_right⟩
  | comment byte plain =>
      rw [Action.symbol, Action.instruction_comment plain]
      exact ⟨_, _, rfl, rfl, ⟨behind, tape_shows, input_eq, output_eq⟩, .inl rfl⟩

theorem Shows.look (shows : list.Shows machine) (counter : Int) :
    { list with counter }.Shows (machine.goOn machine.store.look counter) where
  counter_eq := rfl
  tape_shows := shows.tape_shows.visit
  input_eq := shows.input_eq
  output_eq := shows.output_eq

/-- Both machines carry out the same instruction. -/
theorem Shows.step (shows : list.Shows machine) (sound : machine.Sound program)
    (running : machine.isHalted = false) (short : list.tape.cells.length < 2 ^ 63 - 1) :
    ∃ next after, machine.step = .ok next ∧ list.step program machine.jumps = some after ∧
      after.Shows next ∧ ListTape.Grows list.tape.cells after.tape.cells := by
  rcases Machine.fetches_cases sound.nonneg running with
    ⟨action, fetches⟩ | ⟨bracket, isBracket, fetches⟩
  · exact shows.act sound fetches short
  · obtain ⟨target, linked, -⟩ := sound.exists_target isBracket fetches
    have tested : machine.store.bit = list.tape.bit := shows.tape_shows.cell_head
    rw [step_of_present (shows.present sound fetches), Instruction.ofByte?_symbol]
    rcases Instruction.passes_or_jumps isBracket machine.store.bit with passes | jumped
    · rw [Machine.step_pass fetches passes, shows.counter_eq]
      exact ⟨_, _, rfl, execute_pass (tested ▸ passes), shows.look _, .inl rfl⟩
    · rw [Machine.step_jump fetches jumped linked]
      rw [shows.counter_eq] at linked
      exact ⟨_, _, rfl, execute_jump (tested ▸ jumped) linked, shows.look _, .inl rfl⟩

/-- Both machines take the same instructions. -/
theorem Shows.proceed (shows : list.Shows machine) (sound : machine.Sound program) (steps : Nat)
    (short : list.tape.cells.length + steps < 2 ^ 63) :
    ∃ next after, machine.proceed steps = .ok next ∧
      list.proceed program machine.jumps steps = some after ∧ after.Shows next ∧
      next.Sound program ∧ after.tape.cells.length ≤ list.tape.cells.length + steps := by
  induction steps generalizing machine list with
  | zero => exact ⟨machine, list, rfl, rfl, shows, sound, by omega⟩
  | succ steps ih =>
      have sameEnd : machine.isHalted = true ↔ program.length ≤ list.counter := by
        simp [Machine.isHalted, sound.code_eq, shows.counter_eq]
      cases halted : machine.isHalted with
      | true =>
          refine ⟨machine, list, Machine.proceed_of_isHalted halted _, ?_, shows, sound, by omega⟩
          rw [proceed, if_pos (sameEnd.mp halted)]
      | false =>
          obtain ⟨middle, between, stepped, listStepped, shown, grows⟩ :=
            shows.step sound halted (by omega)
          have middleSound := sound.of_step ⟨halted, stepped⟩
          have length_le := grows.length_le
          obtain ⟨next, after, proceeded, listProceeded, shown, kept, last_le⟩ :=
            ih shown middleSound (by omega)
          refine ⟨next, after, ?_, ?_, shown, kept, by omega⟩
          · rw [Machine.proceed_succ_of_step ⟨halted, stepped⟩, proceeded]
          · rw [proceed, if_neg (mt sameEnd.mpr (by simp [halted])), listStepped,
              sound.jumps_eq middleSound]
            exact listProceeded

end Simulation

/-- For a balanced program, any input and fewer than `2 ^ 62` instructions, the machine and the
machine with one list have the same cells, pointer, output, input and counter. -/
theorem machine_shows_list {program : Bytes} (balanced : Balanced program) (input : Bytes)
    {steps : Nat} (few : steps < 2 ^ 62) :
    ∃ first machine list,
      Machine.load program [.input input] = .ok first ∧
      first.proceed steps = .ok machine ∧
      (start input).proceed program first.jumps steps = some list ∧
      machine.tape.bits = list.tape.cells ∧
      machine.pointer.toInt = list.tape.index ∧
      machine.output.toList = list.output ∧
      machine.input = list.input ∧
      machine.counter = list.counter ∧
      (0 ≤ machine.pointer.toInt ∧ machine.pointer.toInt < machine.tape.length.toInt) ∧
      ∀ next, machine.Step next →
        next.tape.bits.length = machine.tape.bits.length ∨
          next.tape.bits = false :: machine.tape.bits ∨
          next.tape.bits = machine.tape.bits ++ [false] := by
  obtain ⟨jumps, loaded, sound⟩ := Machine.load_of_balanced balanced input
  have shows : (start input).Shows
      { Machine.fresh program jumps with input := .ofBytes input } :=
    ⟨rfl, ListTape.shows_blank, rfl, rfl⟩
  have one : (start input).tape.cells.length = 1 := rfl
  obtain ⟨machine, list, proceeded, listProceeded, shown, kept, length_le⟩ :=
    shows.proceed sound steps (by omega)
  have pointer := shown.tape_shows.toInt_index (by omega)
  have length := shown.tape_shows.toInt_length (by omega)
  have index_lt := shown.tape_shows.index_lt
  refine ⟨_, machine, list, loaded, proceeded, listProceeded, shown.tape_shows.bits_eq, pointer,
    shown.output_eq, shown.input_eq, shown.counter_eq, ?_, ?_⟩
  · rw [Machine.pointer, pointer, length]
    omega
  · intro next step
    obtain ⟨other, after, stepped, -, nextShown, grows⟩ := shown.step kept step.1 (by omega)
    rw [step.2] at stepped
    obtain rfl := Except.ok.inj stepped
    rw [nextShown.tape_shows.bits_eq, shown.tape_shows.bits_eq]
    exact grows

/-- A program that grows the tape to the left and then runs to the right. -/
theorem machine_shows_list_grown_left :
    ∃ first machine, Machine.load (text "<+[>]") [.input []] = .ok first ∧
      first.proceed 5 = .ok machine ∧ machine.tape.bits = [true, false] ∧
      machine.pointer.toInt = 1 ∧ machine.counter = 5 := by
  obtain ⟨first, machine, list, loaded, proceeded, listed, bits, pointer, -, -, counter, -⟩ :=
    machine_shows_list (show Balanced (text "<+[>]") by decide) [] (show 5 < 2 ^ 62 by decide)
  have linked : first.jumps = ⟨#[none, none, some 4, none, some 2]⟩ :=
    congrArg Machine.jumps (Except.ok.inj loaded).symm
  rw [linked] at listed
  obtain rfl := Option.some.inj listed
  exact ⟨first, machine, loaded, proceeded, bits, pointer, counter⟩

end ListMachine
end BitTape
