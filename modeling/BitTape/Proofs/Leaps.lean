import BitTape.Proofs.Matching
import BitTape.Proofs.Safety
import BitTape.Proofs.StructuredRun
import BitTape.Proofs.Trace

/-!
# Jumps behind the partner

A bracket that jumps lands on its partner, which is executed next and falls through.  A `Leaper`
goes on behind the partner at once.  The two end together, with the same cells, head, input and
output, and the machine has counted one instruction more for each leap.  The landing visits the cell
under the head once more, which can be seen only on a tape whose extent has overflowed.
-/

namespace BitTape

open Memory

namespace Machine

/-- The next instruction is a bracket that goes on at its partner. -/
def isJumping (machine : Machine) : Bool :=
  match machine.byte? >>= Instruction.ofByte? with
  | some .loop => !machine.store.bit
  | some .close => machine.store.bit
  | _ => false

/-- A second visit of the cell under the head changes no extent of the tape. -/
def Settled (machine : Machine) : Prop :=
  (machine.tape.visit machine.head).visit machine.head = machine.tape.visit machine.head

end Machine

/-- A machine that jumps behind the partners of its brackets. -/
structure Leaper where
  machine : Machine
  /-- Number of jumps taken by the current run. -/
  leaps : Nat
  deriving DecidableEq

namespace Leaper

/-- Carry out one instruction; a jump goes on behind the partner and is counted as a leap. -/
def step (leaper : Leaper) : Except Crash Leaper :=
  match leaper.machine.step with
  | .error crash => .error crash
  | .ok next =>
      if leaper.machine.isJumping then
        .ok { machine := { next with counter := next.counter + 1 }, leaps := leaper.leaps + 1 }
      else
        .ok { leaper with machine := next }

/-- Run to the end of the program or to a fault, for at most `steps` instructions. -/
def runFor : (steps : Nat) → Leaper → Option (Except Crash Leaper)
  | 0, leaper => if leaper.machine.isHalted then some (.ok leaper) else none
  | steps + 1, leaper =>
      if leaper.machine.isHalted then
        some (.ok leaper)
      else
        match leaper.step with
        | .ok next => runFor steps next
        | .error crash => some (.error crash)

theorem runFor_of_isHalted {leaper : Leaper} (halted : leaper.machine.isHalted = true)
    (steps : Nat) : leaper.runFor steps = some (.ok leaper) := by
  cases steps <;> simp [runFor, halted]

/-- Start a run from the state of a machine. -/
def run (steps : Nat) (machine : Machine) : Option (Except Crash Leaper) :=
  runFor steps { machine := { machine with executed := 0 }, leaps := 0 }

/-! ## Single instructions -/

section Instructions

variable {leaper : Leaper} {next : Machine}

theorem isJumping_act {machine : Machine} {action : Action}
    (fetches : machine.Fetches action.symbol) : machine.isJumping = false := by
  rw [Machine.isJumping, fetches.byte_eq]
  cases action with
  | comment byte plain => simp [Action.symbol, Action.instruction_comment plain]
  | _ => rfl

theorem isJumping_pass {machine : Machine} {bracket : Instruction}
    (fetches : machine.Fetches bracket.symbol) (passes : bracket.Passes machine.store.bit) :
    machine.isJumping = false := by
  rw [Machine.isJumping, fetches.byte_eq]
  rcases passes with ⟨rfl, isOne⟩ | ⟨rfl, isZero⟩
  · simpa [Instruction.ofByte?_symbol] using isOne
  · simpa [Instruction.ofByte?_symbol] using isZero

theorem isJumping_jump {machine : Machine} {bracket : Instruction}
    (fetches : machine.Fetches bracket.symbol) (jumped : bracket.Jumps machine.store.bit) :
    machine.isJumping = true := by
  rw [Machine.isJumping, fetches.byte_eq]
  rcases jumped with ⟨rfl, isZero⟩ | ⟨rfl, isOne⟩
  · simpa [Instruction.ofByte?_symbol] using isZero
  · simpa [Instruction.ofByte?_symbol] using isOne

theorem step_walk (step : leaper.machine.Step next) (walks : leaper.machine.isJumping = false) :
    leaper.step = .ok { leaper with machine := next } := by
  simp [Leaper.step, step.2, walks]

theorem step_leap (step : leaper.machine.Step next) (jumps : leaper.machine.isJumping = true) :
    leaper.step =
      .ok { machine := { next with counter := next.counter + 1 }, leaps := leaper.leaps + 1 } := by
  simp [Leaper.step, step.2, jumps]

end Instructions

/-- The partner of a bracket that jumps falls through on the same bit. -/
theorem exists_passing_partner {program : Bytes} {jumps : JumpTable}
    (accepted : JumpTable.ofProgram program = .ok jumps) {position : Nat} {bracket : Instruction}
    {bit : Bool} (here : program[position]? = some bracket.symbol) (jumped : bracket.Jumps bit) :
    ∃ (target : Nat) (partner : Instruction), jumps.target? position = some target ∧
      program[target]? = some partner.symbol ∧ partner.Passes bit := by
  have isBracket : bracket = .loop ∨ bracket = .close := jumped.imp And.left And.left
  obtain ⟨target, entry⟩ := JumpTable.exists_entry accepted isBracket here
  have linked := (JumpTable.linked_of_entry accepted entry).1
  rw [← JumpTable.target?_eq_some_iff] at entry
  rcases jumped with ⟨rfl, rfl⟩ | ⟨rfl, rfl⟩ <;> rcases linked with partners | partners
  · exact ⟨target, .close, entry, partners.stop_eq, .inr ⟨rfl, rfl⟩⟩
  · cases here.symm.trans partners.stop_eq
  · cases here.symm.trans partners.start_eq
  · exact ⟨target, .loop, entry, partners.start_eq, .inl ⟨rfl, rfl⟩⟩

/-! ## Whole runs -/

section Simulation

variable {σ : Type} [Memory σ] {view : View σ} {program : Bytes} {jumps : JumpTable}
  {machine : Machine} {leaper : Leaper} {position : Nat} {state : σ}

/-- A machine and a leaper at the same position, which show the same state. -/
structure Paired (view : View σ) (program : Bytes) (jumps : JumpTable) (machine : Machine)
    (leaper : Leaper) (position : Nat) (state : σ) : Prop where
  stands : view.Stands program.toArray jumps machine position state
  leaperStands : view.Stands program.toArray jumps leaper.machine position state
  /-- The machine has counted one instruction more for each leap. -/
  executed_eq : machine.executed = leaper.machine.executed + leaper.leaps

theorem Paired.isHalted_eq (paired : Paired view program jumps machine leaper position state) :
    leaper.machine.isHalted = machine.isHalted := by
  simp [Machine.isHalted, paired.stands.code_eq, paired.stands.counter_eq,
    paired.leaperStands.code_eq, paired.leaperStands.counter_eq]

theorem Paired.walk {next after : Machine} {later : Nat} {found : σ}
    (paired : Paired view program jumps machine leaper position state)
    (step : machine.Step next) (stands : view.Stands program.toArray jumps next later found)
    (leaperStep : leaper.machine.Step after)
    (leaperStands : view.Stands program.toArray jumps after later found) :
    Paired view program jumps next { leaper with machine := after } later found where
  stands := stands
  leaperStands := leaperStands
  executed_eq := by
    have counted := paired.executed_eq
    simp only [step.executed_eq, leaperStep.executed_eq]
    omega

/-- One instruction of the leaper is one instruction of the machine, or two when it leaps. -/
theorem Paired.step (paired : Paired view program jumps machine leaper position state)
    (accepted : JumpTable.ofProgram program = .ok jumps) (running : machine.isHalted = false) :
    ∃ next after later found, Relation.TransGen Machine.Step machine next ∧
      leaper.step = .ok after ∧ Paired view program jumps next after later found := by
  obtain ⟨stands, leaperStands, counted⟩ := id paired
  have inside : position < program.length := by
    simpa [Machine.isHalted, stands.code_eq, stands.counter_eq] using running
  have here : program.toArray[position]? = some program[position] := by simp [inside]
  obtain ⟨action, same⟩ | isBracket := Action.byte_cases program[position]
  · rw [same] at here
    obtain ⟨next, step, nextStands⟩ := stands.act here
    obtain ⟨after, leaperStep, afterStands⟩ := leaperStands.act here
    exact ⟨next, _, _, _, .single step,
      step_walk leaperStep (isJumping_act (leaperStands.fetches here)),
      paired.walk step nextStands leaperStep afterStands⟩
  obtain ⟨bracket, isBracket, same⟩ : ∃ bracket : Instruction,
      (bracket = .loop ∨ bracket = .close) ∧ program[position] = bracket.symbol := by
    rcases isBracket with same | same
    · exact ⟨.loop, .inl rfl, same⟩
    · exact ⟨.close, .inr rfl, same⟩
  rw [same] at here
  have fetches := leaperStands.fetches here
  rcases Instruction.passes_or_jumps isBracket (bit state) with passes | jumped
  · obtain ⟨next, step, nextStands⟩ := stands.pass here passes
    obtain ⟨after, leaperStep, afterStands⟩ := leaperStands.pass here passes
    exact ⟨next, _, _, _, .single step,
      step_walk leaperStep (isJumping_pass fetches (leaperStands.bit_eq ▸ passes)),
      paired.walk step nextStands leaperStep afterStands⟩
  · obtain ⟨target, partner, linked, there, passes⟩ :=
      exists_passing_partner accepted (by simpa using here) jumped
    obtain ⟨landed, step, landedStands⟩ := stands.jump here linked jumped
    obtain ⟨next, secondStep, nextStands⟩ :=
      landedStands.pass (by simpa using there) (stands.bit_look ▸ passes)
    rw [stands.look_look] at nextStands
    obtain ⟨after, leaperStep, afterStands⟩ := leaperStands.jump here linked jumped
    refine ⟨next, _, target + 1, look state, .tail (.single step) secondStep,
      step_leap leaperStep (isJumping_jump fetches (leaperStands.bit_eq ▸ jumped)),
      nextStands, ?_, ?_⟩
    · exact { afterStands with counter_eq := by simp [afterStands.counter_eq] }
    · simp only [secondStep.executed_eq, step.executed_eq, leaperStep.executed_eq]
      omega

/-- A run of the machine that has an answer does not crash, and the leaper ends with it. -/
theorem Paired.runFor (paired : Paired view program jumps machine leaper position state)
    (accepted : JumpTable.ofProgram program = .ok jumps) {steps : Nat}
    {answer : Except Crash Machine} (answered : machine.runFor steps = some answer) :
    ∃ last count leaped later found, answer = .ok last ∧
      leaper.runFor count = some (.ok leaped) ∧
      Paired view program jumps last leaped later found := by
  induction steps using Nat.strongRecOn generalizing machine leaper position state with
  | ind steps ih =>
      cases halted : machine.isHalted with
      | true =>
          rw [Machine.runFor_of_isHalted halted] at answered
          exact ⟨machine, 0, leaper, position, state, (Option.some.inj answered).symm,
            runFor_of_isHalted (paired.isHalted_eq.trans halted) 0, paired⟩
      | false =>
          obtain ⟨next, after, later, found, path, leaperStepped, nextPaired⟩ :=
            paired.step accepted halted
          obtain ⟨fewer, fewer_lt, answered⟩ := Machine.runFor_after_transGen path answered
          obtain ⟨last, count, leaped, later, found, same, ended, lastPaired⟩ :=
            ih fewer fewer_lt nextPaired answered
          refine ⟨last, count + 1, leaped, later, found, same, ?_, lastPaired⟩
          rw [Leaper.runFor, if_neg (by simp [paired.isHalted_eq, halted]), leaperStepped]
          exact ended

theorem Paired.ended (paired : Paired view program jumps machine leaper position state)
    (halted : leaper.machine.isHalted = true) {count : Nat} {answer : Except Crash Leaper}
    (answered : leaper.runFor count = some answer) :
    ∃ leaped steps last later found, answer = .ok leaped ∧
      machine.runFor steps = some (.ok last) ∧
      Paired view program jumps last leaped later found := by
  rw [runFor_of_isHalted halted] at answered
  exact ⟨leaper, 0, machine, position, state, (Option.some.inj answered).symm,
    Machine.runFor_of_isHalted (paired.isHalted_eq.symm.trans halted) 0, paired⟩

/-- A run of the leaper that has an answer does not crash, and the machine ends with it. -/
theorem Paired.runFor_of_leaper
    (paired : Paired view program jumps machine leaper position state)
    (accepted : JumpTable.ofProgram program = .ok jumps) {count : Nat}
    {answer : Except Crash Leaper} (answered : leaper.runFor count = some answer) :
    ∃ leaped steps last later found, answer = .ok leaped ∧
      machine.runFor steps = some (.ok last) ∧
      Paired view program jumps last leaped later found := by
  induction count generalizing machine leaper position state with
  | zero =>
      cases halted : leaper.machine.isHalted with
      | true => exact paired.ended halted answered
      | false => simp [Leaper.runFor, halted] at answered
  | succ count ih =>
      cases halted : leaper.machine.isHalted with
      | true => exact paired.ended halted answered
      | false =>
          obtain ⟨next, after, later, found, path, leaperStepped, nextPaired⟩ :=
            paired.step accepted (paired.isHalted_eq.symm.trans halted)
          rw [Leaper.runFor, if_neg (by simp [halted]), leaperStepped] at answered
          obtain ⟨leaped, steps, last, later, found, same, ended, lastPaired⟩ :=
            ih nextPaired answered
          obtain ⟨more, ended⟩ := Machine.runFor_of_steps path.to_reflTransGen ended
          exact ⟨leaped, more, last, later, found, same, ended, lastPaired⟩

end Simulation

/-! ## The difference that can be seen -/

/-- How the end of a run compares with the end of the leaper's run from the same start. -/
structure SameEnd (start last : Machine) (leaped : Leaper) : Prop where
  counter_eq : last.counter = leaped.machine.counter
  cell_eq : last.tape.cell = leaped.machine.tape.cell
  head_eq : last.head = leaped.machine.head
  input_eq : last.input = leaped.machine.input
  output_eq : last.output = leaped.machine.output
  executed_eq : last.executed = leaped.machine.executed + leaped.leaps
  bits_eq : start.Settled → last.tape.bits = leaped.machine.tape.bits

theorem Paired.sameEnd {σ : Type} [Memory σ] {view : View σ} {program : Bytes} {jumps : JumpTable}
    {start last : Machine} {leaped : Leaper} {position : Nat} {state : σ}
    (paired : Paired view program jumps last leaped position state)
    (same : last.store.contents = leaped.machine.store.contents)
    (bits_eq : start.Settled → last.tape.bits = leaped.machine.tape.bits) :
    SameEnd start last leaped where
  counter_eq := paired.stands.counter_eq.trans paired.leaperStands.counter_eq.symm
  cell_eq := congrArg Contents.cells same
  head_eq := congrArg Contents.head same
  input_eq := congrArg Contents.input same
  output_eq := congrArg Contents.output same
  executed_eq := paired.executed_eq
  bits_eq := bits_eq

theorem paired_start {σ : Type} [Memory σ] (view : View σ) {program : Bytes} {machine : Machine}
    (sound : machine.Sound program) (steady : view.Steady machine.store) :
    Paired view program machine.jumps { machine with executed := 0 }
      { machine := { machine with executed := 0 }, leaps := 0 } machine.counter.toNat
      (view.see machine.store) := by
  have stands : view.Stands program.toArray machine.jumps { machine with executed := 0 }
      machine.counter.toNat (view.see machine.store) :=
    ⟨sound.code_eq, rfl, (Int.toNat_of_nonneg sound.nonneg).symm, rfl, steady⟩
  exact ⟨stands, stands, rfl⟩

theorem steady_of_settled {machine : Machine} (settled : machine.Settled) :
    Store.view.Steady machine.store := by
  change { machine.store with tape := (machine.tape.visit machine.head).visit machine.head } = _
  rw [settled]
  rfl

/-- The two runs can be followed in a view that shows all that has to agree at their ends. -/
theorem exists_paired_start {program : Bytes} {machine : Machine} (sound : machine.Sound program) :
    ∃ (σ : Type) (_ : Memory σ) (view : View σ) (position : Nat) (state : σ),
      Paired view program machine.jumps { machine with executed := 0 }
        { machine := { machine with executed := 0 }, leaps := 0 } position state ∧
      ∀ {last leaped later found}, Paired view program machine.jumps last leaped later found →
        SameEnd machine last leaped := by
  by_cases settled : machine.Settled
  · refine ⟨Store, inferInstance, Store.view, _, _,
      paired_start Store.view sound (steady_of_settled settled), ?_⟩
    intro last leaped later found paired
    have same : last.store = leaped.machine.store :=
      paired.stands.see_eq.trans paired.leaperStands.see_eq.symm
    exact paired.sameEnd (congrArg Store.contents same)
      fun _ => congrArg (fun store : Store => store.tape.bits) same
  · refine ⟨Contents, inferInstance, Contents.view, _, _,
      paired_start Contents.view sound trivial, ?_⟩
    intro last leaped later found paired
    exact paired.sameEnd (paired.stands.see_eq.trans paired.leaperStands.see_eq.symm)
      fun holds => (settled holds).elim

/-- Landing on the partner is seen in the count only: a run and the run that leaps behind the
partners end together, alike but for one more instruction for each leap. -/
theorem run_agrees_but_for_count {program : Bytes} {machine : Machine}
    (sound : machine.Sound program) :
    (∀ steps answer, machine.run steps = some answer → ∃ last count leaped,
      answer = .ok last ∧ run count machine = some (.ok leaped) ∧ SameEnd machine last leaped) ∧
    (∀ count answer, run count machine = some answer → ∃ leaped steps last,
      answer = .ok leaped ∧ machine.run steps = some (.ok last) ∧ SameEnd machine last leaped) ∧
    (0 ≤ machine.tape.leftExtent → 0 ≤ machine.tape.rightExtent → machine.Settled) := by
  refine ⟨?_, ?_, ?_⟩
  · intro steps answer answered
    obtain ⟨_, _, _, _, _, paired, sameEnd⟩ := exists_paired_start sound
    obtain ⟨last, count, leaped, _, _, same, ended, lastPaired⟩ :=
      paired.runFor sound.accepted answered
    exact ⟨last, count, leaped, same, ended, sameEnd lastPaired⟩
  · intro count answer answered
    obtain ⟨_, _, _, _, _, paired, sameEnd⟩ := exists_paired_start sound
    obtain ⟨leaped, steps, last, _, _, same, ended, lastPaired⟩ :=
      paired.runFor_of_leaper sound.accepted answered
    exact ⟨leaped, steps, last, same, ended, sameEnd lastPaired⟩
  · intro left right
    have steady : machine.store.look.look = machine.store.look :=
      Store.look_look_of_nonneg left right
    exact congrArg Store.tape steady

/-- A run from the end of a loop back to its start, which copies the rest of the one bits. -/
theorem run_agrees_from_end_of_loop :
    ∃ machine last count leaped,
      Machine.load (text ",[;,]") [.input [7]] = .ok machine ∧
      { machine with tape := (machine.tape.flip 0).2, counter := 4 }.run 17 = some (.ok last) ∧
      run count { machine with tape := (machine.tape.flip 0).2, counter := 4 } =
        some (.ok leaped) ∧
      leaped.machine.output = #[true, true, true, true] ∧
      17 = leaped.machine.executed + leaped.leaps := by
  obtain ⟨machine, last, loaded, sound, answered, written, counted⟩ : ∃ machine last,
      Machine.load (text ",[;,]") [.input [7]] = .ok machine ∧
        { machine with tape := (machine.tape.flip 0).2, counter := 4 }.Sound (text ",[;,]") ∧
        { machine with tape := (machine.tape.flip 0).2, counter := 4 }.run 17 = some (.ok last) ∧
        last.output = #[true, true, true, true] ∧ last.executed = 17 :=
    ⟨_, _, rfl, ⟨rfl, rfl, by decide⟩, rfl, rfl, rfl⟩
  obtain ⟨ends, -⟩ := run_agrees_but_for_count sound
  obtain ⟨_, count, leaped, same, ended, sameEnd⟩ := ends 17 _ answered
  obtain rfl := Except.ok.inj same
  exact ⟨machine, last, count, leaped, loaded, answered, ended,
    sameEnd.output_eq.symm.trans written, counted.symm.trans sameEnd.executed_eq⟩

/-- On a tape whose extent has overflowed only a second visit takes in the cell under the head, so
the landing is seen in the visited cells. -/
theorem landing_seen_on_overflown_tape :
    ∃ first middle start last leaped,
      Machine.load (text "[]>>><") [] = .ok first ∧
      { first with tape := (first.tape.get Int64.maxValue).2, counter := 5 }.run 1 =
        some (.ok middle) ∧
      start = { middle with tape := (middle.tape.get Int64.maxValue).2, counter := 0 } ∧
      start.Sound (text "[]>>><") ∧
      start.run 6 = some (.ok last) ∧ run 5 start = some (.ok leaped) ∧
      last.tape.bits = [false, false, false, false] ∧
      leaped.machine.tape.bits = [false, false, false] :=
  ⟨_, _, _, _, _, rfl, rfl, rfl, ⟨rfl, rfl, by decide⟩, rfl, rfl, rfl, rfl⟩

end Leaper
end BitTape
