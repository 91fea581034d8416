import BitTape.Proofs.Instructions

/-!
# Traces

The trace of a run is the list of the bytes that it executes.  Instructions are counted along it.
-/

namespace BitTape
namespace Machine

/-- The bytes executed by the first instructions of a run, or by all if the program ends before. -/
def trace : (steps : Nat) → Machine → Bytes
  | 0, _ => []
  | steps + 1, machine =>
      if machine.isHalted then
        []
      else
        match machine.step with
        | .ok next => machine.byte?.toList ++ next.trace steps
        | .error _ => []

theorem trace_of_isHalted {machine : Machine} (halted : machine.isHalted = true) (steps : Nat) :
    machine.trace steps = [] := by
  cases steps <;> simp [trace, halted]

theorem trace_succ_of_step {before after : Machine} {byte : UInt8} (fetches : before.Fetches byte)
    (stepped : before.step = .ok after) (steps : Nat) :
    before.trace (steps + 1) = byte :: after.trace steps := by
  simp [trace, fetches.isHalted, stepped, fetches.byte_eq]

/-- A bracket that has to jump needs a target. -/
theorem exists_target_of_step {before after : Machine} {bracket : Instruction}
    (fetches : before.Fetches bracket.symbol) (jumped : bracket.Jumps before.store.bit)
    (stepped : before.step = .ok after) :
    ∃ target, before.jumps.target? before.counter = some target := by
  have cell : before.tape.cell before.head = before.store.bit := rfl
  rw [step_of_fetches fetches, Instruction.ofByte?_symbol] at stepped
  cases linked : before.jumps.target? before.counter with
  | some target => exact ⟨target, rfl⟩
  | none =>
      rcases jumped with ⟨rfl, isZero⟩ | ⟨rfl, isOne⟩
      · simp [execute, Tape.get, cell, isZero, jump, linked] at stepped
      · simp [execute, Tape.get, cell, isOne, jump, linked] at stepped

/-- What an instruction that is carried out can be, and where it leads. -/
theorem Step.cases {before after : Machine} (step : before.Step after) :
    (∃ action : Action, before.Fetches action.symbol ∧
        after = before.goOn (Memory.perform action before.store) (before.counter + 1)) ∨
      ∃ bracket : Instruction, (bracket = .loop ∨ bracket = .close) ∧
        before.Fetches bracket.symbol ∧
        (bracket.Passes before.store.bit ∧
            after = before.goOn before.store.look (before.counter + 1) ∨
          bracket.Jumps before.store.bit ∧ ∃ target : Nat,
            before.jumps.target? before.counter = some target ∧
              after = before.goOn before.store.look target) := by
  obtain ⟨running, stepped⟩ := step
  have nonneg : 0 ≤ before.counter := by
    rcases Int.lt_or_le before.counter 0 with negative | nonneg
    · simp [Machine.step, negative] at stepped
    · exact nonneg
  rcases fetches_cases nonneg running with ⟨action, fetches⟩ | ⟨bracket, isBracket, fetches⟩
  · rw [step_act fetches] at stepped
    exact .inl ⟨action, fetches, (Except.ok.inj stepped).symm⟩
  · refine .inr ⟨bracket, isBracket, fetches, ?_⟩
    rcases Instruction.passes_or_jumps isBracket before.store.bit with passes | jumped
    · rw [step_pass fetches passes] at stepped
      exact .inl ⟨passes, (Except.ok.inj stepped).symm⟩
    · obtain ⟨target, linked⟩ := exists_target_of_step fetches jumped stepped
      rw [step_jump fetches jumped linked] at stepped
      exact .inr ⟨jumped, target, linked, (Except.ok.inj stepped).symm⟩

/-- An instruction that is carried out executes a byte, replaces the store and counts itself. -/
theorem Step.exists_goOn {before after : Machine} (step : before.Step after) :
    ∃ byte store counter, before.Fetches byte ∧ after = before.goOn store counter := by
  rcases step.cases with
    ⟨_, fetches, same⟩ | ⟨_, -, fetches, ⟨-, same⟩ | ⟨-, _, -, same⟩⟩
  · exact ⟨_, _, _, fetches, same⟩
  · exact ⟨_, _, _, fetches, same⟩
  · exact ⟨_, _, _, fetches, same⟩

theorem Step.executed_eq {before after : Machine} (step : before.Step after) :
    after.executed = before.executed + 1 := by
  obtain ⟨_, _, _, -, rfl⟩ := step.exists_goOn
  rfl

/-- A run counts the bytes of its trace. -/
theorem executed_of_proceed {machine last : Machine} {steps : Nat}
    (proceeded : machine.proceed steps = .ok last) :
    last.executed = machine.executed + (machine.trace steps).length := by
  induction steps generalizing machine with
  | zero =>
      obtain rfl := Except.ok.inj proceeded
      rfl
  | succ steps ih =>
      cases halted : machine.isHalted with
      | true =>
          rw [proceed_of_isHalted halted] at proceeded
          obtain rfl := Except.ok.inj proceeded
          rw [trace_of_isHalted halted]
          rfl
      | false =>
          cases stepped : machine.step with
          | error crash => simp [proceed, halted, stepped] at proceeded
          | ok next =>
              have step : machine.Step next := ⟨halted, stepped⟩
              obtain ⟨byte, store, counter, fetches, rfl⟩ := step.exists_goOn
              rw [proceed_succ_of_step step] at proceeded
              rw [ih proceeded, trace_succ_of_step fetches stepped, List.length_cons]
              simp only [goOn]
              omega

theorem executed_of_runFor {machine last : Machine} {steps : Nat}
    (ended : machine.runFor steps = some (.ok last)) :
    last.executed = machine.executed + (machine.trace steps).length := by
  rw [runFor_eq_proceed] at ended
  split at ended
  · rename_i next proceeded
    split at ended
    · obtain rfl := Except.ok.inj (Option.some.inj ended)
      exact executed_of_proceed proceeded
    · cases ended
  · cases ended

theorem runFor_unique {machine : Machine} {first second : Nat} {answer other : Except Crash Machine}
    (answered : machine.runFor first = some answer)
    (answeredToo : machine.runFor second = some other) : answer = other := by
  have later := runFor_add answered second
  rw [Nat.add_comm, runFor_add answeredToo first] at later
  exact (Option.some.inj later).symm

theorem trace_add {machine : Machine} {steps : Nat} {answer : Except Crash Machine}
    (answered : machine.runFor steps = some answer) (more : Nat) :
    machine.trace (steps + more) = machine.trace steps := by
  induction steps generalizing machine with
  | zero =>
      cases halted : machine.isHalted with
      | true => rw [trace_of_isHalted halted, trace_of_isHalted halted]
      | false => simp [runFor, halted] at answered
  | succ steps ih =>
      rw [Nat.succ_add]
      cases halted : machine.isHalted with
      | true => rw [trace_of_isHalted halted, trace_of_isHalted halted]
      | false =>
          cases stepped : machine.step with
          | error crash => simp [trace, halted, stepped]
          | ok next =>
              rw [runFor_succ_of_step ⟨halted, stepped⟩] at answered
              simp only [trace, halted, stepped, Bool.false_eq_true, if_false, ih answered]

/-- A run with an answer has one trace. -/
theorem trace_unique {machine : Machine} {first second : Nat} {answer other : Except Crash Machine}
    (answered : machine.runFor first = some answer)
    (answeredToo : machine.runFor second = some other) :
    machine.trace first = machine.trace second := by
  rw [← trace_add answered second, Nat.add_comm, trace_add answeredToo first]

end Machine
end BitTape
