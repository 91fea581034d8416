import Mathlib.Data.List.GetD
import BitTape.Proofs.Packing
import BitTape.Proofs.StrippedRun

/-!
# Runs depend on what they read

The bits of an input are followed by zeros without end.  A run looks at as many of these bits as it
executes read instructions, in order and at no others.  So two inputs that agree on them lead to the
same run, whether it reads inside the inputs or behind their ends.
-/

namespace BitTape

/-! ## Bits that are still to come -/

namespace InputBits

/-- The bit that is delivered after `place` others; zero after the end. -/
def ahead (input : InputBits) (place : Nat) : Bool :=
  input.remaining.getD place false

/-- The cursor after a number of bits. -/
def skip (input : InputBits) (count : Nat) : InputBits :=
  { position := input.position + min count input.remaining.length
    remaining := input.remaining.drop count }

@[simp]
theorem skip_zero (input : InputBits) : input.skip 0 = input := by
  simp [skip]

theorem next_eq (input : InputBits) : input.next = (input.ahead 0, input.skip 1) := by
  obtain ⟨position, remaining⟩ := input
  cases remaining with
  | nil => rfl
  | cons bit remaining => simp [next, ahead, skip]

theorem ahead_skip (input : InputBits) (count place : Nat) :
    (input.skip count).ahead place = input.ahead (place + count) := by
  simp [ahead, skip, List.getD_eq_getElem?_getD, Nat.add_comm]

theorem skip_skip (input : InputBits) (first second : Nat) :
    (input.skip first).skip second = input.skip (second + first) := by
  simp only [skip, List.drop_drop, List.length_drop, mk.injEq]
  refine ⟨by omega, by rw [Nat.add_comm]⟩

theorem position_skip_ofBytes (bytes : Bytes) (count : Nat) :
    ((ofBytes bytes).skip count).position = min count (8 * bytes.length) := by
  simp [ofBytes, skip, length_pack]

end InputBits

theorem getD_pack_append_zeros (bytes : Bytes) (zeros place : Nat) :
    (pack (bytes ++ List.replicate zeros 0)).getD place false = (pack bytes).getD place false := by
  have silent : pack (List.replicate zeros 0) = List.replicate (8 * zeros) false := by
    induction zeros with
    | zero => rfl
    | succ zeros ih =>
        rw [List.replicate_succ, pack_cons, ih, bitsOfByte_zero, List.replicate_append_replicate]
        congr 1
        omega
  rw [pack_append, silent]
  by_cases inside : place < (pack bytes).length
  · rw [List.getD_append _ _ _ _ inside]
  · have ended : (pack bytes).getD place false = false := List.getD_eq_default _ _ (by omega)
    rw [List.getD_append_right _ _ _ _ (by omega), ended]
    simp

theorem getD_pack_take (bytes : Bytes) {count place : Nat} (early : place < 8 * count) :
    (pack (bytes.take count)).getD place false = (pack bytes).getD place false := by
  have split : pack bytes = pack (bytes.take count) ++ pack (bytes.drop count) := by
    rw [← pack_append, List.take_append_drop]
  by_cases inside : place < (pack (bytes.take count)).length
  · rw [split, List.getD_append _ _ _ _ inside]
  · rw [length_pack, List.length_take] at inside
    rw [List.take_of_length_le (by omega)]

/-! ## Two inputs -/

namespace Machine

/-- Number of read instructions among the first instructions of a run. -/
def reads (steps : Nat) (machine : Machine) : Nat :=
  (machine.trace steps).count Instruction.read.symbol

theorem reads_of_isHalted {machine : Machine} (halted : machine.isHalted = true) (steps : Nat) :
    machine.reads steps = 0 := by
  rw [reads, trace_of_isHalted halted, List.count_nil]

theorem reads_succ {before after : Machine} {byte : UInt8} (fetches : before.Fetches byte)
    (step : before.Step after) (steps : Nat) :
    before.reads (steps + 1) =
      after.reads steps + if byte = Instruction.read.symbol then 1 else 0 := by
  rw [reads, trace_succ_of_step fetches step.2, List.count_cons, reads]
  simp

/-- The machine with another input. -/
def withInput (machine : Machine) (input : InputBits) : Machine :=
  { machine with input }

theorem fetches_withInput {machine : Machine} {byte : UInt8} (input : InputBits)
    (fetches : machine.Fetches byte) : (machine.withInput input).Fetches byte :=
  ⟨fetches.nonneg, fetches.byte_eq⟩

theorem Step.withInput {before after : Machine} (step : before.Step after) (input : InputBits) :
    ∃ byte count, before.Fetches byte ∧
      count = (if byte = Instruction.read.symbol then 1 else 0) ∧
      after.input = before.input.skip count ∧
      ((∀ place < count, input.ahead place = before.input.ahead place) →
        (before.withInput input).Step (after.withInput (input.skip count))) := by
  have running : (before.withInput input).isHalted = false := step.1
  rcases step.cases with
    ⟨action, fetches, rfl⟩ | ⟨bracket, isBracket, fetches, outcome⟩
  · have stepped := step_act (fetches_withInput input fetches)
    cases action with
    | read =>
        refine ⟨_, 1, fetches, rfl, ?_, fun agree => ⟨running, stepped.trans ?_⟩⟩
        · simp [goOn, Memory.perform, Store.perform, store, InputBits.next_eq]
        · have same := agree 0 (by decide)
          simp [goOn, Memory.perform, Store.perform, store, InputBits.next_eq, Machine.withInput,
            same]
    | comment byte plain =>
        have other : byte ≠ Instruction.read.symbol := by
          rintro rfl
          cases plain
        refine ⟨byte, 0, fetches, by rw [if_neg other], ?_, fun _ => ⟨running, stepped.trans ?_⟩⟩
        · rw [InputBits.skip_zero]
          rfl
        · rw [InputBits.skip_zero]
          rfl
    | _ =>
        refine ⟨_, 0, fetches, rfl, ?_, fun _ => ⟨running, stepped.trans ?_⟩⟩
        · rw [InputBits.skip_zero]
          rfl
        · rw [InputBits.skip_zero]
          rfl
  · have other : bracket.symbol ≠ Instruction.read.symbol := by
      rcases isBracket with rfl | rfl <;> decide
    have withInput := fetches_withInput input fetches
    refine ⟨_, 0, fetches, by rw [if_neg other], ?_, fun _ => ⟨running, ?_⟩⟩
    · rw [InputBits.skip_zero]
      rcases outcome with ⟨-, rfl⟩ | ⟨-, target, -, rfl⟩ <;> rfl
    · rw [InputBits.skip_zero]
      rcases outcome with ⟨passes, rfl⟩ | ⟨jumped, target, linked, rfl⟩
      · exact step_pass withInput passes
      · exact step_jump withInput jumped linked

/-- Inputs that agree on the bits read lead to the same states, but for what is left of them. -/
theorem proceed_withInput {machine last : Machine} {steps : Nat}
    (proceeded : machine.proceed steps = .ok last) {input : InputBits}
    (agree : ∀ place < machine.reads steps, input.ahead place = machine.input.ahead place) :
    (machine.withInput input).proceed steps =
      .ok (last.withInput (input.skip (machine.reads steps))) := by
  induction steps generalizing machine input with
  | zero =>
      obtain rfl := Except.ok.inj proceeded
      rw [reads, trace, List.count_nil, InputBits.skip_zero]
      rfl
  | succ steps ih =>
      cases halted : machine.isHalted with
      | true =>
          rw [proceed_of_isHalted halted] at proceeded
          obtain rfl := Except.ok.inj proceeded
          have alsoHalted : (machine.withInput input).isHalted = true := halted
          rw [proceed_of_isHalted alsoHalted, reads_of_isHalted halted, InputBits.skip_zero]
      | false =>
          cases stepped : machine.step with
          | error crash => simp [proceed, halted, stepped] at proceeded
          | ok next =>
              have step : machine.Step next := ⟨halted, stepped⟩
              obtain ⟨byte, count, fetches, counted, moved, follows⟩ := step.withInput input
              rw [proceed_succ_of_step step] at proceeded
              rw [reads_succ fetches step, ← counted] at agree ⊢
              rw [proceed_succ_of_step (follows fun place early => agree place (by omega)),
                ih proceeded, InputBits.skip_skip]
              intro place early
              rw [InputBits.ahead_skip, moved, InputBits.ahead_skip]
              exact agree (place + count) (by omega)

/-! ## Loaded programs -/

section Programs

variable {program first second : Bytes} {jumps : JumpTable}

/-- On inputs that agree on the bits read, a program has the same run but for the input. -/
theorem run_start_of_agree (accepted : JumpTable.ofProgram program = .ok jumps) {steps : Nat}
    (agree : ∀ place < (start program jumps first).reads steps,
      (pack second).getD place false = (pack first).getD place false) :
    (start program jumps second).run steps =
      ((start program jumps first).run steps).map (Except.map fun last =>
        last.withInput
          ((InputBits.ofBytes second).skip ((start program jumps first).reads steps))) := by
  obtain ⟨last, proceeded, -⟩ := (sound_start accepted first).proceed steps
  have sameStart : start program jumps second =
      (start program jumps first).withInput (.ofBytes second) := rfl
  have agreeAhead : ∀ place < (start program jumps first).reads steps,
      (InputBits.ofBytes second).ahead place = (start program jumps first).input.ahead place :=
    agree
  have sameEnd (input : InputBits) : (last.withInput input).isHalted = last.isHalted := rfl
  rw [run_start, run_start, runFor_eq_proceed, runFor_eq_proceed, proceeded, sameStart,
    proceed_withInput proceeded agreeAhead]
  simp only [sameEnd]
  cases last.isHalted with
  | true => rfl
  | false => rfl

theorem interpret_of_agree (accepted : JumpTable.ofProgram program = .ok jumps) {steps : Nat}
    (agree : ∀ place < (start program jumps first).reads steps,
      (pack second).getD place false = (pack first).getD place false) :
    interpret steps program second = interpret steps program first := by
  rw [interpret, interpret, load_of_accepted accepted, load_of_accepted accepted]
  simp only [run_start_of_agree accepted agree]
  cases (start program jumps first).run steps with
  | none => rfl
  | some answer =>
      cases answer with
      | error crash => rfl
      | ok last => rfl

end Programs

/-- On an input that agrees on the bits that a run reads, a balanced program has the same run; zeros
follow the bits of an input. -/
theorem run_depends_on_bits_read {program : Bytes} (balanced : Balanced program)
    (first second : Bytes) :
    ∃ machine other,
      load program [.input first] = .ok machine ∧ load program [.input second] = .ok other ∧
      (∀ steps last, machine.run steps = some (.ok last) →
        (∀ place < machine.reads steps,
          (pack second).getD place false = (pack first).getD place false) →
        ∃ otherLast, other.run steps = some (.ok otherLast) ∧
          otherLast.output = last.output ∧ otherLast.tape.bits = last.tape.bits ∧
          otherLast.head = last.head ∧ otherLast.executed = last.executed ∧
          otherLast.input.position = min (machine.reads steps) (8 * second.length)) ∧
      (∀ steps zeros, interpret steps program (first ++ List.replicate zeros 0) =
        interpret steps program first) ∧
      ∀ steps count, machine.reads steps ≤ 8 * count → second.take count = first.take count →
        interpret steps program second = interpret steps program first := by
  obtain ⟨jumps, accepted⟩ := (JumpTable.ofProgram_isOk_iff program).mpr balanced
  refine ⟨start program jumps first, start program jumps second, load_of_accepted accepted first,
    load_of_accepted accepted second, ?_, ?_, ?_⟩
  · intro steps last ended agree
    have endedToo := run_start_of_agree accepted agree
    rw [ended] at endedToo
    exact ⟨_, endedToo, rfl, rfl, rfl, rfl, InputBits.position_skip_ofBytes second _⟩
  · intro steps zeros
    exact interpret_of_agree accepted fun place _ => getD_pack_append_zeros first zeros place
  · intro steps count few same
    refine interpret_of_agree accepted fun place early => ?_
    rw [← getD_pack_take second (by omega : place < 8 * count), same,
      getD_pack_take first (by omega)]

/-- A program that reads three bits sees neither the rest of the byte nor another byte behind it. -/
theorem run_depends_on_three_bits :
    ∃ other otherLast, load (text ",[;,]") [.input [3, 255]] = .ok other ∧
      other.run 9 = some (.ok otherLast) ∧ otherLast.output = #[true, true] ∧
      otherLast.executed = 9 ∧ otherLast.input.position = 3 := by
  obtain ⟨machine, other, loaded, loadedToo, agrees, -⟩ :=
    run_depends_on_bits_read (show Balanced (text ",[;,]") by decide) [11] [3, 255]
  obtain ⟨last, ended, written, counted⟩ : ∃ last, machine.run 9 = some (.ok last) ∧
      last.output = #[true, true] ∧ last.executed = 9 := by
    obtain rfl := Except.ok.inj loaded
    exact ⟨_, rfl, rfl, rfl⟩
  have read : machine.reads 9 = 3 := by
    obtain rfl := Except.ok.inj loaded
    rfl
  obtain ⟨otherLast, endedToo, output, -, -, executed, position⟩ :=
    agrees 9 last ended (by rw [read]; decide)
  rw [read] at position
  exact ⟨other, otherLast, loadedToo, endedToo, output.trans written, executed.trans counted,
    position⟩

end Machine
end BitTape
