import BitTape.Machine.Load
import BitTape.Proofs.Cells
import BitTape.Proofs.Trace

/-!
# Crashes

Nothing ties the code of a machine to its jump table, and the program counter may stand anywhere.  A
run of such a machine leaves the program at its end, or it comes to an instruction that cannot be
carried out: a bracket that has to jump and finds no target, or a position before the program, which
only the start of a run can be at.  As long as the tape is shorter than the range of a word, the
state in which a run crashes is the one after the instructions that were carried out.
-/

namespace BitTape

/-! ## Tables of integers -/

namespace JumpTable

/-- The jump table with the given entries, of which the negative ones are no targets. -/
def ofIntegers (entries : List Int) : JumpTable :=
  ⟨(entries.map Int.toNat?).toArray⟩

theorem target?_ofIntegers_eq_none_iff {entries : List Int} {position : Int} :
    (ofIntegers entries).target? position = none ↔
      ∀ entry, 0 ≤ position → entries[position.toNat]? = some entry → entry < 0 := by
  rw [target?]
  split
  · rename_i negative
    exact iff_of_true rfl fun _ nonneg => absurd nonneg (Int.not_le.mpr negative)
  · rename_i nonneg
    rw [ofIntegers, List.getElem?_toArray, List.getElem?_map]
    cases entries[position.toNat]? with
    | none => simp
    | some entry =>
        have isTarget : Int.toNat? entry = none ↔ entry < 0 := by
          cases entry with
          | ofNat value => simp [Int.toNat?]
          | negSucc value => exact iff_of_true rfl (Int.negSucc_lt_zero value)
        have reached : 0 ≤ position := Int.not_lt.mp nonneg
        simp [isTarget, reached]

end JumpTable

/-! ## The head on the tape -/

theorem Tape.visit_of_visited {tape : Tape} {position : Int64}
    (left : -tape.leftExtent.toInt ≤ position.toInt)
    (right : position.toInt < tape.rightExtent.toInt) : tape.visit position = tape := by
  have bound := position.toInt_lt
  have negated : (-tape.leftExtent).toInt = -tape.leftExtent.toInt :=
    toInt_neg_of_fits (by omega)
  have notBeyond : ¬tape.rightExtent ≤ position := by
    rw [Int64.le_iff_toInt_le]
    omega
  have notBefore : ¬position < -tape.leftExtent := by
    rw [Int64.lt_iff_toInt_lt, negated]
    omega
  rw [visit, if_neg notBeyond, if_neg notBefore]

namespace Store

/-- The head is on the tape, which has fewer cells than the reach on either side. -/
structure Within (store : Store) (reach : Int) : Prop where
  left_le : -store.tape.leftExtent.toInt ≤ store.head.toInt
  lt_right : store.head.toInt < store.tape.rightExtent.toInt
  leftExtent_lt : store.tape.leftExtent.toInt < reach
  rightExtent_lt : store.tape.rightExtent.toInt < reach

namespace Within

variable {store : Store} {reach : Int}

theorem mono (within : store.Within reach) {further : Int} (le : reach ≤ further) :
    store.Within further where
  left_le := within.left_le
  lt_right := within.lt_right
  leftExtent_lt := Int.lt_of_lt_of_le within.leftExtent_lt le
  rightExtent_lt := Int.lt_of_lt_of_le within.rightExtent_lt le

theorem visit_head (within : store.Within reach) : store.tape.visit store.head = store.tape :=
  Tape.visit_of_visited within.left_le within.lt_right

theorem look_eq (within : store.Within reach) : store.look = store := by
  rw [look, within.visit_head]

theorem congr (within : store.Within reach) {other : Store}
    (left : other.tape.leftExtent = store.tape.leftExtent)
    (right : other.tape.rightExtent = store.tape.rightExtent) (head : other.head = store.head) :
    other.Within reach := by
  constructor
  · rw [left, head]
    exact within.left_le
  · rw [right, head]
    exact within.lt_right
  · rw [left]
    exact within.leftExtent_lt
  · rw [right]
    exact within.rightExtent_lt

theorem left (within : store.Within reach) (fits : reach < 2 ^ 63) :
    (store.perform .left).Within (reach + 1) := by
  obtain ⟨left_le, lt_right, leftExtent_lt, rightExtent_lt⟩ := within
  have head : (store.head - 1).toInt = store.head.toInt - 1 := toInt_sub_one (by omega)
  have negated : (-store.tape.leftExtent).toInt = -store.tape.leftExtent.toInt :=
    toInt_neg_of_fits (by omega)
  have inside : ¬store.tape.rightExtent ≤ store.head - 1 := by
    rw [Int64.le_iff_toInt_le]
    omega
  simp only [perform, Tape.visit, if_neg inside]
  split
  · have extent : (-(store.head - 1)).toInt = -(store.head.toInt - 1) := by
      rw [toInt_neg_of_fits (by omega), head]
    constructor <;> simp only [extent, head] <;> omega
  · rename_i visited
    rw [Int64.lt_iff_toInt_lt, negated] at visited
    constructor <;> simp only [head] <;> omega

theorem right (within : store.Within reach) (fits : reach < 2 ^ 63) :
    (store.perform .right).Within (reach + 1) := by
  obtain ⟨left_le, lt_right, leftExtent_lt, rightExtent_lt⟩ := within
  have head : (store.head + 1).toInt = store.head.toInt + 1 := toInt_add_one (by omega)
  simp only [perform, Tape.visit]
  split
  · have extent : (store.head + 1 + 1).toInt = store.head.toInt + 1 + 1 := by
      rw [toInt_add_one (by omega), head]
    constructor <;> simp only [extent, head] <;> omega
  · rename_i inside
    rw [Int64.le_iff_toInt_le] at inside
    have negated : (-store.tape.leftExtent).toInt = -store.tape.leftExtent.toInt :=
      toInt_neg_of_fits (by omega)
    have visited : ¬store.head + 1 < -store.tape.leftExtent := by
      rw [Int64.lt_iff_toInt_lt, negated]
      omega
    rw [if_neg visited]
    constructor <;> simp only [head] <;> omega

/-- An action takes the head at most one cell beyond the tape, which then is on it. -/
theorem perform (within : store.Within reach) (fits : reach < 2 ^ 63) (action : Action) :
    (store.perform action).Within (reach + 1) := by
  have further : store.Within (reach + 1) := within.mono (by omega)
  have visited := within.visit_head
  cases action with
  | left => exact within.left fits
  | right => exact within.right fits
  | comment => exact further
  | flip | read | write =>
      refine further.congr ?_ ?_ rfl <;> simp [Store.perform, visited]

end Within
end Store

namespace Machine

/-! ## Steps -/

theorem Step.within {before after : Machine} (step : before.Step after) {reach : Int}
    (within : before.store.Within reach) (fits : reach < 2 ^ 63) :
    after.store.Within (reach + 1) := by
  rcases step.cases with
    ⟨action, -, rfl⟩ | ⟨bracket, -, -, ⟨-, rfl⟩ | ⟨-, target, -, rfl⟩⟩
  · exact within.perform fits action
  · rw [store_goOn, within.look_eq]
    exact within.mono (by omega)
  · rw [store_goOn, within.look_eq]
    exact within.mono (by omega)

/-- An instruction starts inside the program and never leads before it. -/
theorem Step.nonneg {before after : Machine} (step : before.Step after) : 0 ≤ after.counter := by
  rcases step.cases with
    ⟨action, fetches, rfl⟩ | ⟨bracket, -, fetches, ⟨-, rfl⟩ | ⟨-, target, -, rfl⟩⟩
  · have nonneg := fetches.nonneg
    rw [counter_goOn]
    omega
  · have nonneg := fetches.nonneg
    rw [counter_goOn]
    omega
  · exact Int.natCast_nonneg target

/-- Why an instruction cannot be carried out, and the state in which it is given up. -/
theorem step_eq_error_cases {machine : Machine} {crash : Crash}
    (running : machine.isHalted = false) (failed : machine.step = .error crash) :
    machine.counter < 0 ∧ crash = ⟨.outOfRange ⟨machine.counter⟩, machine⟩ ∨
      ∃ bracket : Instruction, machine.Fetches bracket.symbol ∧
        bracket.Jumps machine.store.bit ∧ machine.jumps.target? machine.counter = none ∧
        crash = ⟨.noTarget bracket, { machine with tape := machine.tape.visit machine.head }⟩ := by
  rcases Int.lt_or_le machine.counter 0 with negative | nonneg
  · rw [step, if_pos negative] at failed
    exact .inl ⟨negative, (Except.error.inj failed).symm⟩
  · refine .inr ?_
    rcases fetches_cases nonneg running with ⟨action, fetches⟩ | ⟨bracket, isBracket, fetches⟩
    · rw [step_act fetches] at failed
      cases failed
    · rcases Instruction.passes_or_jumps isBracket machine.store.bit with passes | jumped
      · rw [step_pass fetches passes] at failed
        cases failed
      · refine ⟨bracket, fetches, jumped, ?_⟩
        cases linked : machine.jumps.target? machine.counter with
        | some target =>
            rw [step_jump fetches jumped linked] at failed
            cases failed
        | none =>
            have cell : machine.tape.cell machine.head = machine.store.bit := rfl
            rw [step_of_fetches fetches, Instruction.ofByte?_symbol] at failed
            rcases jumped with ⟨rfl, isZero⟩ | ⟨rfl, isOne⟩
            · simp only [execute, Tape.get, cell, isZero, Bool.false_eq_true, if_false, jump,
                linked] at failed
              exact ⟨rfl, (Except.error.inj failed).symm⟩
            · simp only [execute, Tape.get, cell, isOne, if_true, jump, linked] at failed
              exact ⟨rfl, (Except.error.inj failed).symm⟩

/-- With the head on the tape, an instruction that fails changes nothing. -/
theorem machine_of_step_eq_error {machine : Machine} {crash : Crash} {reach : Int}
    (running : machine.isHalted = false) (failed : machine.step = .error crash)
    (within : machine.store.Within reach) : crash.machine = machine := by
  rcases step_eq_error_cases running failed with ⟨-, rfl⟩ | ⟨bracket, -, -, -, rfl⟩
  · rfl
  · have visited : machine.tape.visit machine.head = machine.tape := within.visit_head
    simp only [visited]

theorem executed_of_step_eq_error {machine : Machine} {crash : Crash}
    (running : machine.isHalted = false) (failed : machine.step = .error crash) :
    crash.machine.executed = machine.executed := by
  rcases step_eq_error_cases running failed with ⟨-, rfl⟩ | ⟨bracket, -, -, -, rfl⟩ <;> rfl

/-! ## Runs -/

/-- A run that has an answer leaves the program, or comes to an instruction that fails. -/
theorem exists_steps_of_runFor {machine : Machine} {steps : Nat} {answer : Except Crash Machine}
    (answered : machine.runFor steps = some answer) :
    ∃ last, machine.Steps last ∧
      (last.isHalted = true ∧ answer = .ok last ∨
        last.isHalted = false ∧ ∃ crash, last.step = .error crash ∧ answer = .error crash) := by
  induction steps generalizing machine with
  | zero =>
      cases halted : machine.isHalted with
      | false => simp [runFor, halted] at answered
      | true =>
          rw [runFor_of_isHalted halted] at answered
          exact ⟨machine, .refl, .inl ⟨halted, (Option.some.inj answered).symm⟩⟩
  | succ steps ih =>
      cases halted : machine.isHalted with
      | true =>
          rw [runFor_of_isHalted halted] at answered
          exact ⟨machine, .refl, .inl ⟨halted, (Option.some.inj answered).symm⟩⟩
      | false =>
          cases stepped : machine.step with
          | ok next =>
              have step : machine.Step next := ⟨halted, stepped⟩
              rw [runFor_succ_of_step step] at answered
              obtain ⟨last, path, ending⟩ := ih answered
              exact ⟨last, .head step path, ending⟩
          | error crash =>
              simp only [runFor, halted, stepped, Bool.false_eq_true, if_false,
                Option.some.injEq] at answered
              exact ⟨machine, .refl, .inr ⟨halted, crash, stepped, answered.symm⟩⟩

theorem Steps.proceed_eq {first last : Machine} (path : first.Steps last) :
    ∃ count, last.executed = first.executed + count ∧ first.proceed count = .ok last := by
  induction path using Relation.ReflTransGen.head_induction_on with
  | refl => exact ⟨0, rfl, rfl⟩
  | head step _ ih =>
      obtain ⟨count, counted, proceeded⟩ := ih
      refine ⟨count + 1, ?_, ?_⟩
      · rw [counted, step.executed_eq]
        omega
      · rw [proceed_succ_of_step step, proceeded]

/-- Along a run the tape grows at most as fast as the instructions are counted. -/
theorem Steps.within {first last : Machine} (path : first.Steps last)
    (within : first.store.Within (2 ^ 62 + first.executed)) (short : last.executed < 2 ^ 62) :
    last.store.Within (2 ^ 62 + last.executed) := by
  induction path with
  | refl => exact within
  | tail _ step ih =>
      have counted := step.executed_eq
      refine (step.within (ih (by omega)) (by omega)).mono ?_
      omega

theorem Steps.jumps_eq {first last : Machine} (path : first.Steps last) :
    last.jumps = first.jumps := by
  induction path with
  | refl => rfl
  | tail _ step ih =>
      obtain ⟨_, _, _, -, rfl⟩ := step.exists_goOn
      exact ih

theorem Steps.nonneg {first last : Machine} (path : first.Steps last) :
    last.executed = first.executed ∨ 0 ≤ last.counter := by
  cases path with
  | refl => exact .inl rfl
  | tail _ step => exact .inr step.nonneg

/-- The state in which a run leaves the machine. -/
def stateAfter : Except Crash Machine → Machine
  | .ok last => last
  | .error crash => crash.machine

/-- A run of any code with any jump table leaves the program, or crashes in exactly the state after
the counted instructions, at an instruction that cannot be carried out there. -/
theorem run_ends_or_crashes_in_place (machine : Machine) (entries : List Int)
    (within : machine.store.Within (2 ^ 62)) {steps : Nat} {answer : Except Crash Machine}
    (answered : { machine with jumps := .ofIntegers entries }.run steps = some answer)
    (short : (stateAfter answer).executed < 2 ^ 62) :
    { machine with jumps := .ofIntegers entries, executed := 0 }.proceed
        (stateAfter answer).executed = .ok (stateAfter answer) ∧
      ((∃ last, answer = .ok last ∧ last.code.size ≤ last.counter) ∨
        ∃ crash, answer = .error crash ∧ crash.machine.step = .error crash ∧
          ((∃ bracket : Instruction, crash.fault = .noTarget bracket ∧
              crash.machine.Fetches bracket.symbol ∧
              bracket.Jumps crash.machine.store.bit ∧
              ∀ entry, entries[crash.machine.counter.toNat]? = some entry → entry < 0) ∨
            crash.fault = .outOfRange ⟨crash.machine.counter⟩ ∧ crash.machine.counter < 0 ∧
              crash.machine.executed = 0)) := by
  obtain ⟨last, path, ending⟩ := exists_steps_of_runFor answered
  obtain ⟨count, counted, proceeded⟩ := path.proceed_eq
  obtain rfl : last.executed = count := by
    rw [counted]
    exact Nat.zero_add count
  have jumps_eq : last.jumps = .ofIntegers entries := path.jumps_eq
  rcases ending with ⟨halted, rfl⟩ | ⟨running, crash, failed, rfl⟩
  · refine ⟨proceeded, .inl ⟨last, rfl, ?_⟩⟩
    simpa [isHalted] using halted
  · have early : last.executed < 2 ^ 62 := by
      rw [← executed_of_step_eq_error running failed]
      exact short
    have start : machine.store.Within (2 ^ 62 + (0 : Nat)) := within.mono (by omega)
    have within := path.within start early
    obtain rfl := machine_of_step_eq_error running failed within
    refine ⟨proceeded, .inr ⟨crash, rfl, failed, ?_⟩⟩
    rcases step_eq_error_cases running failed with
      ⟨negative, same⟩ | ⟨bracket, fetches, jumped, unlinked, same⟩
    · have executed := path.nonneg.resolve_right (by omega)
      exact .inr ⟨congrArg Crash.fault same, negative, executed⟩
    · refine .inl ⟨bracket, congrArg Crash.fault same, fetches, jumped, ?_⟩
      rw [jumps_eq, JumpTable.target?_ofIntegers_eq_none_iff] at unlinked
      exact fun entry => unlinked entry fetches.nonneg

/-- A jump through a wrong table skips a loop, and the bracket that is met next has no entry. -/
theorem run_crashes_after_wild_jump :
    ∃ crash : Crash,
      { fresh (text "[+]<+]") ⟨#[]⟩ with jumps := .ofIntegers [4, 7, -3] }.run 9 =
          some (.error crash) ∧
        crash.machine.counter = 5 ∧ crash.machine.executed = 2 ∧
        { fresh (text "[+]<+]") ⟨#[]⟩ with jumps := .ofIntegers [4, 7, -3] }.proceed 2 =
          .ok crash.machine ∧
        crash.machine.step = .error crash := by
  obtain ⟨crash, answered, counter, executed⟩ : ∃ crash : Crash,
      { fresh (text "[+]<+]") ⟨#[]⟩ with jumps := .ofIntegers [4, 7, -3] }.run 9 =
          some (.error crash) ∧
        crash.machine.counter = 5 ∧ crash.machine.executed = 2 :=
    ⟨_, rfl, rfl, rfl⟩
  have within : (fresh (text "[+]<+]") ⟨#[]⟩).store.Within (2 ^ 62) := by
    constructor <;> decide
  have short : (stateAfter (.error crash)).executed < 2 ^ 62 := by
    rw [stateAfter, executed]
    decide
  obtain ⟨proceeded, ⟨_, ended, -⟩ | ⟨_, failed, stuck, -⟩⟩ :=
    run_ends_or_crashes_in_place _ _ within answered short
  · cases ended
  · cases failed
    rw [stateAfter, executed] at proceeded
    exact ⟨crash, answered, counter, executed, proceeded, stuck⟩

end Machine
end BitTape
