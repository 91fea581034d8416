import Mathlib.Data.Nat.Count
import Mathlib.Tactic.IntervalCases
import BitTape.Proofs.Crashes
import BitTape.Proofs.Extent
import BitTape.Proofs.Reading

/-!
# Accounts of a run

Every counter of a machine tells something about all instructions of its run.  The course of a run
is the sequence of its states; along it the head, the extent of the tape, the output and the input
cursor are kept by different instructions, and each agrees with the number of times that these were
executed.
-/

namespace BitTape
namespace Machine

/-! ## One instruction -/

/-- How often an instruction is executed next: once or not at all. -/
def due (machine : Machine) (instruction : Instruction) : Nat :=
  if machine.byte? = some instruction.symbol then 1 else 0

theorem due_of_fetches {machine : Machine} {byte : UInt8} (fetches : machine.Fetches byte)
    (instruction : Instruction) :
    machine.due instruction = if Instruction.ofByte? byte = some instruction then 1 else 0 := by
  have same : some byte = some instruction.symbol ↔
      Instruction.ofByte? byte = some instruction := by
    rw [Option.some.injEq, Instruction.ofByte?_eq_some_iff, eq_comm]
  rw [due, fetches.byte_eq]
  simp only [same]

/-- What an instruction adds to the accounts of a run. -/
structure Adds (before after : Machine) : Prop where
  head_eq : after.head =
    before.head + Int64.ofNat (before.due .right) - Int64.ofNat (before.due .left)
  output_eq : after.output.toList =
    before.output.toList ++ List.replicate (before.due .write) before.store.bit
  input_eq : after.input = before.input.skip (before.due .read)
  bit_eq : before.due .read = 1 → after.store.bit = before.input.ahead 0

theorem Step.adds {before after : Machine} (step : before.Step after) : before.Adds after := by
  rcases step.cases with
    ⟨action, fetches, rfl⟩ | ⟨bracket, isBracket, fetches, outcome⟩
  · have due := due_of_fetches fetches
    cases action with
    | comment byte plain =>
        constructor <;> simp [due, Action.symbol, Action.instruction_comment plain, goOn,
          Memory.perform, Store.perform, store]
    | _ =>
        constructor <;> simp [due, Action.symbol, Instruction.ofByte?_symbol, goOn,
          Memory.perform, Store.perform, store, Store.bit, InputBits.next_eq, Tape.cell_set]
  · have due := due_of_fetches fetches
    rw [Instruction.ofByte?_symbol] at due
    rcases isBracket with rfl | rfl <;> rcases outcome with ⟨-, rfl⟩ | ⟨-, target, -, rfl⟩ <;>
      constructor <;> simp [due, goOn, Store.look, store]

theorem due_le_one (machine : Machine) (instruction : Instruction) :
    machine.due instruction ≤ 1 := by
  rw [due]
  split <;> decide

theorem Adds.toInt_head {before after : Machine} (adds : before.Adds after)
    (low : -2 ^ 63 < before.head.toInt) (high : before.head.toInt < 2 ^ 63 - 1) :
    after.head.toInt = before.head.toInt + before.due .right - before.due .left := by
  have right := before.due_le_one .right
  have left := before.due_le_one .left
  have rightWord : (Int64.ofNat (before.due .right)).toInt = before.due .right :=
    Int64.toInt_ofNat_of_lt (by omega)
  have leftWord : (Int64.ofNat (before.due .left)).toInt = before.due .left :=
    Int64.toInt_ofNat_of_lt (by omega)
  have sum : (before.head + Int64.ofNat (before.due .right)).toInt =
      before.head.toInt + before.due .right := by
    rw [toInt_add_of_fits (by omega) (by omega), rightWord]
  rw [adds.head_eq, toInt_sub_of_fits (by omega) (by omega), sum, leftWord]

/-! ## The course of a run -/

/-- A machine goes through a sequence of states, one after each of a number of instructions. -/
structure Course (first : Machine) (states : Nat → Machine) (count : Nat) : Prop where
  starts : states 0 = first
  steps : ∀ place < count, (states place).Step (states (place + 1))

/-- Number of times that an instruction is executed from the first of the states on. -/
def executions (states : Nat → Machine) (instruction : Instruction) (count : Nat) : Nat :=
  Nat.count (fun place => (states place).byte? = some instruction.symbol) count

/-- The positions of the head so far. -/
def heads (states : Nat → Machine) (count : Nat) : Set Int :=
  {position | ∃ place ≤ count, (states place).head.toInt = position}

/-- The bits under the head after each read instruction, in order. -/
def delivered (states : Nat → Machine) (count : Nat) : List Bool :=
  ((List.range count).filter fun place =>
    (states place).byte? = some Instruction.read.symbol).map fun place =>
      (states (place + 1)).store.bit

theorem executions_succ (states : Nat → Machine) (instruction : Instruction) (count : Nat) :
    executions states instruction (count + 1) =
      executions states instruction count + (states count).due instruction :=
  Nat.count_succ ..

theorem executions_le (states : Nat → Machine) (instruction : Instruction) (count : Nat) :
    executions states instruction count ≤ count :=
  Nat.count_le _

theorem delivered_succ (states : Nat → Machine) (count : Nat) :
    delivered states (count + 1) = delivered states count ++
      List.replicate ((states count).due .read) (states (count + 1)).store.bit := by
  rw [delivered, List.range_succ, List.filter_append, List.map_append, ← delivered, due]
  by_cases reads : (states count).byte? = some Instruction.read.symbol <;> simp [reads]

theorem heads_zero (states : Nat → Machine) : heads states 0 = {(states 0).head.toInt} := by
  ext position
  simp [heads, eq_comm]

theorem heads_succ (states : Nat → Machine) (count : Nat) :
    heads states (count + 1) = insert (states (count + 1)).head.toInt (heads states count) := by
  ext position
  simp only [heads, Set.mem_insert_iff, Set.mem_ofPred_eq, Nat.le_succ_iff, or_and_right,
    exists_or, exists_eq_left, eq_comm (a := position)]
  exact or_comm

theorem head_mem_heads (states : Nat → Machine) (count : Nat) :
    (states count).head.toInt ∈ heads states count :=
  ⟨count, Nat.le_refl count, rfl⟩

namespace Course

variable {first : Machine} {states : Nat → Machine} {count : Nat}

theorem init (course : Course first states (count + 1)) : Course first states count :=
  ⟨course.starts, fun place before => course.steps place (by omega)⟩

theorem last (course : Course first states (count + 1)) :
    (states count).Step (states (count + 1)) :=
  course.steps count (Nat.lt_succ_self count)

theorem executed_eq (course : Course first states count) :
    (states count).executed = first.executed + count := by
  induction count with
  | zero => rw [course.starts, Nat.add_zero]
  | succ count ih => rw [course.last.executed_eq, ih course.init, Nat.add_assoc]

theorem tail (course : Course first states (count + 1)) :
    Course (states 1) (fun place => states (place + 1)) count :=
  ⟨rfl, fun place before => course.steps (place + 1) (by omega)⟩

theorem proceed_eq (course : Course first states count) :
    first.proceed count = .ok (states count) := by
  induction count generalizing first states with
  | zero => rw [course.starts, proceed]
  | succ count ih =>
      have step := course.steps 0 (Nat.succ_pos count)
      rw [course.starts] at step
      rw [proceed_succ_of_step step]
      exact ih course.tail

/-- The head has gone as far to the right as there were more moves there than to the left. -/
theorem toInt_head (course : Course first states count) (centred : first.head = 0)
    (few : count < 2 ^ 62) :
    (states count).head.toInt = executions states .right count - executions states .left count := by
  induction count with
  | zero =>
      rw [course.starts, centred]
      rfl
  | succ count ih =>
      have before := ih course.init (by omega)
      have right := executions_le states .right count
      have left := executions_le states .left count
      rw [course.last.adds.toInt_head (by omega) (by omega), executions_succ, executions_succ]
      omega

/-- Fewer than `2 ^ 62` instructions keep the head so close to its start that no word overflows. -/
theorem close_heads (course : Course first states count) (centred : first.head = 0)
    (few : count < 2 ^ 62) : Close (heads states count) := by
  have bounded : ∀ position ∈ heads states count, -2 ^ 62 < position ∧ position < 2 ^ 62 := by
    rintro position ⟨place, reached, rfl⟩
    have early : Course first states place :=
      ⟨course.starts, fun other before => course.steps other (by omega)⟩
    have head := early.toInt_head centred (by omega)
    have right := executions_le states .right place
    have left := executions_le states .left place
    omega
  intro first isFirst last isLast
  have firstBound := bounded first isFirst
  have lastBound := bounded last isLast
  omega

/-- The tape reaches over the positions of the head. -/
theorem covers (course : Course first states count) (centred : first.head = 0)
    (blank : first.tape = .blank) (few : count < 2 ^ 62) :
    (states count).tape.Covers (heads states count) := by
  induction count with
  | zero =>
      rw [heads_zero, course.starts, blank, centred]
      exact Tape.covers_blank
  | succ count ih =>
      have close := course.close_heads centred few
      rw [heads_succ] at close ⊢
      exact course.last.covers (ih course.init (by omega)) (head_mem_heads states count) close

theorem input_eq (course : Course first states count) :
    (states count).input = first.input.skip (executions states .read count) := by
  induction count with
  | zero =>
      rw [course.starts]
      exact (InputBits.skip_zero _).symm
  | succ count ih =>
      rw [course.last.adds.input_eq, ih course.init, InputBits.skip_skip, executions_succ,
        Nat.add_comm]

/-- The read instructions deliver the bits of the input in order. -/
theorem delivered_eq (course : Course first states count) :
    delivered states count =
      (List.range (executions states .read count)).map first.input.ahead := by
  induction count with
  | zero => rfl
  | succ count ih =>
      have adds := course.last.adds
      rw [delivered_succ, ih course.init, executions_succ]
      have once := (states count).due_le_one .read
      rcases (show (states count).due .read = 0 ∨ (states count).due .read = 1 by omega) with
        other | reads
      · rw [other, List.replicate_zero, List.append_nil, Nat.add_zero]
      · rw [adds.bit_eq reads, course.init.input_eq, InputBits.ahead_skip, Nat.zero_add, reads,
          List.range_succ, List.map_append]
        rfl

theorem size_output (course : Course first states count) :
    (states count).output.size = first.output.size + executions states .write count := by
  induction count with
  | zero =>
      rw [course.starts]
      rfl
  | succ count ih =>
      have written := congrArg List.length course.last.adds.output_eq
      simp only [Array.length_toList, List.length_append, List.length_replicate] at written
      rw [written, ih course.init, executions_succ, Nat.add_assoc]

theorem output_isPrefix (course : Course first states count) {earlier later : Nat}
    (le : earlier ≤ later) (reached : later ≤ count) :
    (states earlier).output.toList <+: (states later).output.toList := by
  induction later, le using Nat.le_induction with
  | base => exact List.prefix_rfl
  | succ later _ ih =>
      rw [(course.steps later (by omega)).adds.output_eq]
      exact (ih (by omega)).trans (List.prefix_append _ _)

theorem cons {next : Machine} (step : first.Step next) (course : Course next states count) :
    Course first (fun place => place.casesOn first states) (count + 1) := by
  refine ⟨rfl, fun place before => ?_⟩
  cases place with
  | zero =>
      rw [← course.starts] at step
      exact step
  | succ place => exact course.steps place (by omega)

end Course

/-- A sound machine takes any number of instructions, unless it comes to the end before. -/
theorem Sound.exists_course {program : Bytes} {machine : Machine} (sound : machine.Sound program)
    (count : Nat) :
    (∃ states, Course machine states count) ∨
      ∃ states, ∃ fewer < count, Course machine states fewer ∧ (states fewer).isHalted = true := by
  induction count generalizing machine with
  | zero => exact .inl ⟨fun _ => machine, rfl, by simp⟩
  | succ count ih =>
      cases halted : machine.isHalted with
      | true => exact .inr ⟨fun _ => machine, 0, Nat.succ_pos count, ⟨rfl, by simp⟩, halted⟩
      | false =>
          obtain ⟨store, counter, stepped, -⟩ := sound.exists_goOn halted
          have step : machine.Step (machine.goOn store counter) := ⟨halted, stepped⟩
          rcases ih (sound.of_step step) with
            ⟨states, course⟩ | ⟨states, fewer, before, course, ended⟩
          · exact .inl ⟨_, course.cons step⟩
          · exact .inr ⟨_, fewer + 1, by omega, course.cons step, ended⟩

/-- After fewer than `2 ^ 62` instructions the count, head, extent, output and input cursor of a
loaded machine are what the executed instructions add up to. -/
theorem run_keeps_exact_accounts {program : Bytes} (balanced : Balanced program) (input : Bytes) :
    ∃ first, load program [.input input] = .ok first ∧
      (∀ count, (∃ states, Course first states count) ∨
        ∃ states, ∃ fewer < count, Course first states fewer ∧ (states fewer).isHalted = true) ∧
      ∀ states count, count < 2 ^ 62 → Course first states count →
        first.proceed count = .ok (states count) ∧
        (states count).executed = count ∧
        (states count).head.toInt =
          executions states .right count - executions states .left count ∧
        (∃ low high, IsLeast (heads states count) low ∧ IsGreatest (heads states count) high ∧
          (states count).tape.length.toInt - 1 = high - low ∧
          (states count).pointer.toInt = (states count).head.toInt - low) ∧
        (states count).output.size = executions states .write count ∧
        (states count).input.position =
          min (8 * input.length) (executions states .read count) ∧
        delivered states count = (List.range (executions states .read count)).map
          (fun place => (pack input).getD place false) ∧
        ∀ earlier later, earlier ≤ later → later ≤ count →
          (states earlier).output.toList <+: (states later).output.toList := by
  obtain ⟨jumps, loaded, sound⟩ := load_of_balanced balanced input
  refine ⟨_, loaded, sound.exists_course, fun states count few course => ?_⟩
  have close := course.close_heads rfl few
  have covers := course.covers rfl rfl few
  have head_mem := head_mem_heads states count
  have low_le := covers.least.2 head_mem
  have le_high := covers.greatest.2 head_mem
  have length := covers.toInt_length close
  have pointer := covers.toInt_index low_le (by omega) close
  have executed := course.executed_eq
  have written := course.size_output
  refine ⟨course.proceed_eq, by simpa [fresh] using executed, course.toInt_head rfl few,
    ⟨_, _, covers.least, covers.greatest, by omega, ?_⟩, by simpa [fresh] using written, ?_,
    course.delivered_eq, fun _ _ le reached => course.output_isPrefix le reached⟩
  · rw [Machine.pointer]
    omega
  · rw [course.input_eq, InputBits.position_skip_ofBytes, Nat.min_comm]

/-- A loop that is run once, with a read to the left of the first cell. -/
theorem run_accounts_for_one_pass :
    ∃ first last, load (text ",[;<,]>") [.input [5]] = .ok first ∧ first.proceed 7 = .ok last ∧
      last.executed = 7 ∧ last.head.toInt = 0 ∧ last.tape.length.toInt = 2 ∧
      last.pointer.toInt = 1 ∧ last.output.size = 1 ∧ last.input.position = 2 := by
  obtain ⟨first, loaded, -, accounts⟩ :=
    run_keeps_exact_accounts (show Balanced (text ",[;<,]>") by decide) [5]
  obtain ⟨states, named⟩ : ∃ states : Nat → Machine,
      states = fun place => stateAfter (first.proceed place) := ⟨_, rfl⟩
  have course : Course first states 7 := by
    obtain rfl := Except.ok.inj loaded
    subst named
    refine ⟨rfl, fun place before => ?_⟩
    interval_cases place <;> exact ⟨rfl, rfl⟩
  have executed : executions states .right 7 = 1 ∧ executions states .left 7 = 1 ∧
      executions states .write 7 = 1 ∧ executions states .read 7 = 2 := by
    obtain rfl := Except.ok.inj loaded
    subst named
    decide
  have leftmost : IsLeast (heads states 7) (-1) ∧ IsGreatest (heads states 7) 0 := by
    obtain rfl := Except.ok.inj loaded
    subst named
    refine ⟨⟨⟨4, by decide, by decide⟩, ?_⟩, ⟨⟨0, by decide, by decide⟩, ?_⟩⟩ <;>
      (rintro position ⟨place, reached, rfl⟩; interval_cases place <;> decide)
  obtain ⟨right, left, write, read⟩ := executed
  obtain ⟨proceeded, counted, head, ⟨low, high, least, greatest, length, pointer⟩, written, cursor,
    -⟩ := accounts states 7 (by decide) course
  obtain rfl := least.unique leftmost.1
  obtain rfl := greatest.unique leftmost.2
  rw [right, left] at head
  rw [write] at written
  rw [read] at cursor
  exact ⟨first, _, loaded, proceeded, counted, head, by omega, by omega, written, cursor⟩

end Machine
end BitTape
