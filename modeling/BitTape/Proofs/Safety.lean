import BitTape.Machine.Load
import BitTape.Proofs.Balance
import BitTape.Proofs.Layout

/-!
# Loaded programs never crash

Matching the brackets before a run is enough to rule out every fault.  In each state that a loaded
machine can get into, also after partial runs, new inputs and new positions, the next instruction
finds its target, and a run that starts inside the program ends right behind it.
-/

namespace BitTape
namespace Machine

/-- The states into which the machine of a program can be brought. -/
inductive Reachable (program : Bytes) : Machine → Prop where
  /-- A machine is loaded with some inputs, the last of which counts. -/
  | load {inputs : List Bytes} {machine : Machine} :
      load program (inputs.map Setting.input) = .ok machine → Reachable program machine
  /-- A run is stopped after a number of instructions or goes on to its end. -/
  | run {machine next : Machine} (steps : Nat) : Reachable program machine →
      { machine with executed := 0 }.proceed steps = .ok next → Reachable program next
  | crash {machine : Machine} {crash : Crash} (steps : Nat) : Reachable program machine →
      { machine with executed := 0 }.proceed steps = .error crash →
        Reachable program crash.machine
  | input {machine : Machine} (inputs : List Bytes) : Reachable program machine →
      Reachable program (machine.configure (inputs.map Setting.input)).1
  | counter {machine : Machine} {counter : Int} : Reachable program machine → 0 ≤ counter →
      Reachable program { machine with counter }

/-- The machine holds a program with its own jump table and is not before its start. -/
structure Sound (program : Bytes) (machine : Machine) : Prop where
  code_eq : machine.code = program.toArray
  accepted : JumpTable.ofProgram program = .ok machine.jumps
  nonneg : 0 ≤ machine.counter

theorem Sound.restart {program : Bytes} {machine : Machine} (sound : machine.Sound program) :
    { machine with executed := 0 }.Sound program :=
  ⟨sound.code_eq, sound.accepted, sound.nonneg⟩

theorem Sound.exists_target {program : Bytes} {machine : Machine} (sound : machine.Sound program)
    {bracket : Instruction} (isBracket : bracket = .loop ∨ bracket = .close)
    (fetches : machine.Fetches bracket.symbol) :
    ∃ target, machine.jumps.target? machine.counter = some target ∧ target < program.length := by
  obtain ⟨tree, spelled, -⟩ := JumpTable.ofProgram_eq_ok_iff.mp sound.accepted
  have laid := Tree.laid_of_ofProgram sound.accepted spelled
  have here : tree.flatten[machine.counter.toNat]? = some bracket.symbol := by
    simpa [byte?, sound.code_eq, spelled] using fetches.byte_eq
  obtain ⟨target, linked, inside⟩ := laid.exists_target isBracket here
  refine ⟨target, ?_, ?_⟩
  · rwa [Nat.zero_add, Int.toNat_of_nonneg sound.nonneg] at linked
  · simpa [Tree.size, spelled] using inside

/-- An instruction of a sound machine is carried out and goes on inside the program or behind it. -/
theorem Sound.exists_goOn {program : Bytes} {machine : Machine} (sound : machine.Sound program)
    (running : machine.isHalted = false) :
    ∃ store counter, machine.step = .ok (machine.goOn store counter) ∧ 0 ≤ counter ∧
      counter ≤ program.length := by
  have nonneg := sound.nonneg
  have inside : machine.counter + 1 ≤ program.length := by
    simp only [isHalted, sound.code_eq, List.size_toArray, decide_eq_false_iff_not] at running
    omega
  rcases fetches_cases nonneg running with ⟨action, fetches⟩ | ⟨bracket, isBracket, fetches⟩
  · exact ⟨_, _, step_act fetches, by omega, inside⟩
  · obtain ⟨target, linked, target_lt⟩ := sound.exists_target isBracket fetches
    rcases Instruction.passes_or_jumps isBracket machine.store.bit with passes | jumped
    · exact ⟨_, _, step_pass fetches passes, by omega, inside⟩
    · exact ⟨_, _, step_jump fetches jumped linked, by omega, by omega⟩

theorem Sound.of_step {program : Bytes} {before after : Machine} (sound : before.Sound program)
    (step : before.Step after) : after.Sound program := by
  obtain ⟨store, counter, stepped, nonneg, -⟩ := sound.exists_goOn step.1
  rw [step.2] at stepped
  obtain rfl := Except.ok.inj stepped
  exact ⟨sound.code_eq, sound.accepted, nonneg⟩

theorem Sound.jumps_eq {program : Bytes} {first second : Machine} (firstSound : first.Sound program)
    (secondSound : second.Sound program) : first.jumps = second.jumps :=
  Except.ok.inj (firstSound.accepted.symm.trans secondSound.accepted)

theorem Sound.proceed {program : Bytes} {machine : Machine} (sound : machine.Sound program)
    (steps : Nat) : ∃ next, machine.proceed steps = .ok next ∧ next.Sound program := by
  refine proceed_ok_of_invariant ?_ sound steps
  intro machine sound running
  obtain ⟨store, counter, stepped, -, -⟩ := sound.exists_goOn running
  exact ⟨_, stepped, sound.of_step ⟨running, stepped⟩⟩

theorem Sound.proceed_le {program : Bytes} {machine : Machine} (sound : machine.Sound program)
    (inside : machine.counter ≤ program.length) (steps : Nat) :
    ∃ next, machine.proceed steps = .ok next ∧ next.Sound program ∧
      next.counter ≤ program.length := by
  refine proceed_ok_of_invariant ?_ ⟨sound, inside⟩ steps
  rintro machine ⟨sound, -⟩ running
  obtain ⟨store, counter, stepped, -, inside⟩ := sound.exists_goOn running
  exact ⟨_, stepped, sound.of_step ⟨running, stepped⟩, inside⟩

theorem configure_inputs (machine : Machine) (inputs : List Bytes) :
    ∃ input, machine.configure (inputs.map Setting.input) = ({ machine with input }, none) := by
  induction inputs generalizing machine with
  | nil => exact ⟨machine.input, rfl⟩
  | cons bytes inputs ih => exact ih { machine with input := .ofBytes bytes }

/-- A loaded machine holds its program, a blank tape and the last input. -/
theorem load_inputs {program : Bytes} {inputs : List Bytes} {machine : Machine}
    (loaded : load program (inputs.map Setting.input) = .ok machine) :
    ∃ jumps input, JumpTable.ofProgram program = .ok jumps ∧
      machine = { fresh program jumps with input } := by
  rw [load] at loaded
  split at loaded
  · cases loaded
  · rename_i jumps accepted
    obtain ⟨input, configured⟩ := configure_inputs (fresh program jumps) inputs
    rw [configured] at loaded
    exact ⟨jumps, input, accepted, (Except.ok.inj loaded).symm⟩

theorem Reachable.sound {program : Bytes} {machine : Machine}
    (reachable : machine.Reachable program) : machine.Sound program := by
  induction reachable with
  | load loaded =>
      obtain ⟨jumps, input, accepted, rfl⟩ := load_inputs loaded
      exact ⟨rfl, accepted, Int.le_refl 0⟩
  | run steps _ ran sound =>
      obtain ⟨next, proceeded, kept⟩ := sound.restart.proceed steps
      rw [ran] at proceeded
      obtain rfl := Except.ok.inj proceeded
      exact kept
  | crash steps _ crashed sound =>
      obtain ⟨next, proceeded, -⟩ := sound.restart.proceed steps
      rw [crashed] at proceeded
      cases proceeded
  | @input machine inputs _ sound =>
      obtain ⟨input, configured⟩ := configure_inputs machine inputs
      rw [configured]
      exact ⟨sound.code_eq, sound.accepted, sound.nonneg⟩
  | counter _ nonneg sound => exact ⟨sound.code_eq, sound.accepted, nonneg⟩

theorem Sound.run_ne_error {program : Bytes} {machine : Machine} (sound : machine.Sound program)
    (steps : Nat) (crash : Crash) : machine.run steps ≠ some (.error crash) := by
  obtain ⟨next, proceeded, -⟩ := sound.restart.proceed steps
  rw [run, runFor_eq_proceed, proceeded]
  intro crashed
  simp only at crashed
  split at crashed <;> cases crashed

/-- The run of a sound machine from inside the program ends right behind the program. -/
theorem Sound.counter_of_run {program : Bytes} {machine last : Machine}
    (sound : machine.Sound program) (inside : machine.counter ≤ program.length) {steps : Nat}
    (answered : machine.run steps = some (.ok last)) : last.counter = program.length := by
  obtain ⟨next, proceeded, kept, next_le⟩ := sound.restart.proceed_le inside steps
  rw [run, runFor_eq_proceed, proceeded] at answered
  simp only at answered
  split at answered
  · rename_i halted
    obtain rfl : next = last := by simpa using answered
    simp only [isHalted, kept.code_eq, List.size_toArray, decide_eq_true_eq] at halted
    omega
  · cases answered

end Machine

/-- An unbalanced program is refused before its first instruction. -/
theorem interpret_of_not_balanced {program : Bytes} (unbalanced : ¬Balanced program)
    (input : Bytes) :
    ∃ bracket, ∀ steps,
      interpret steps program input = some (.error (.load (.mismatch bracket))) := by
  cases scanned : JumpTable.ofProgram program with
  | ok jumps => exact (unbalanced ((JumpTable.ofProgram_isOk_iff program).mp ⟨jumps, scanned⟩)).elim
  | error bracket =>
      refine ⟨bracket, fun steps => ?_⟩
      simp [interpret, Machine.load, scanned]

theorem Machine.load_of_balanced {program : Bytes} (balanced : Balanced program) (input : Bytes) :
    ∃ jumps, load program [.input input] =
        .ok { fresh program jumps with input := .ofBytes input } ∧
      Sound program { fresh program jumps with input := .ofBytes input } := by
  obtain ⟨jumps, accepted⟩ := (JumpTable.ofProgram_isOk_iff program).mpr balanced
  refine ⟨jumps, ?_, rfl, accepted, Int.le_refl 0⟩
  simp [load, accepted, configure, Setting.input]

theorem interpret_eq_ok {program input : Bytes} {machine final : Machine} {steps : Nat}
    (loaded : Machine.load program [.input input] = .ok machine)
    (ended : machine.run steps = some (.ok final)) :
    interpret steps program input = some (.ok final.outputBytes) := by
  simp [interpret, loaded, ended]

theorem interpret_ne_error_of_balanced {program : Bytes} (balanced : Balanced program)
    (input : Bytes) (steps : Nat) (error : InterpretError) :
    interpret steps program input ≠ some (.error error) := by
  obtain ⟨jumps, loaded, sound⟩ := Machine.load_of_balanced balanced input
  rw [interpret, loaded]
  simp only
  split
  · simp
  · rename_i crashed
    exact (sound.run_ne_error steps _ crashed).elim
  · simp

namespace Machine

/-- In every reachable state inside the program the next instruction is carried out, so no run
crashes and the interpretation of a program fails exactly if its brackets are unbalanced. -/
theorem reachable_run_never_crashes (program : Bytes) :
    (∀ machine : Machine, machine.Reachable program →
      (machine.isHalted = false →
        (0 ≤ machine.counter ∧ machine.counter < program.length) ∧
        (∀ bracket : Instruction, bracket = .loop ∨ bracket = .close →
          machine.byte? = some bracket.symbol →
            ∃ target, machine.jumps.target? machine.counter = some target) ∧
        ∃ next, machine.step = .ok next) ∧
      (∀ steps crash, machine.run steps ≠ some (.error crash)) ∧
      (∀ steps last, machine.counter ≤ program.length → machine.run steps = some (.ok last) →
        last.counter = program.length)) ∧
    ∀ input : Bytes,
      ((∃ steps error, interpret steps program input = some (.error error)) ↔
        ¬Balanced program) ∧
      (¬Balanced program → ∃ bracket, ∀ steps,
        interpret steps program input = some (.error (.load (.mismatch bracket)))) := by
  refine ⟨?_, ?_⟩
  · intro machine reachable
    have sound := reachable.sound
    refine ⟨fun running => ⟨⟨sound.nonneg, ?_⟩, ?_, ?_⟩, sound.run_ne_error, ?_⟩
    · simpa [isHalted, sound.code_eq] using running
    · intro bracket isBracket here
      obtain ⟨target, linked, -⟩ := sound.exists_target isBracket ⟨sound.nonneg, here⟩
      exact ⟨target, linked⟩
    · obtain ⟨store, counter, stepped, -⟩ := sound.exists_goOn running
      exact ⟨_, stepped⟩
    · intro steps last inside answered
      exact sound.counter_of_run inside answered
  · intro input
    refine ⟨⟨?_, ?_⟩, fun unbalanced => interpret_of_not_balanced unbalanced input⟩
    · rintro ⟨steps, error, failed⟩ balanced
      exact interpret_ne_error_of_balanced balanced input steps error failed
    · intro unbalanced
      obtain ⟨bracket, refused⟩ := interpret_of_not_balanced unbalanced input
      exact ⟨0, _, refused 0⟩

/-- A run that starts in the middle of a loop ends behind the program. -/
theorem reachable_run_from_inside_loop :
    ∃ machine last : Machine, machine.Reachable (text ",[;,]") ∧ machine.counter = 3 ∧
      machine.run 10 = some (.ok last) ∧ last.counter = 5 := by
  obtain ⟨first, last, loaded, answered⟩ : ∃ first last : Machine,
      load (text ",[;,]") ([[3]].map Setting.input) = .ok first ∧
        { first with counter := 3 }.run 10 = some (.ok last) :=
    ⟨_, _, rfl, rfl⟩
  have reachable : { first with counter := 3 }.Reachable (text ",[;,]") :=
    .counter (.load loaded) (by decide)
  have inside : (3 : Int) ≤ (text ",[;,]").length := by decide
  obtain ⟨-, -, ends⟩ := (reachable_run_never_crashes (text ",[;,]")).1 _ reachable
  exact ⟨_, last, reachable, rfl, answered, ends 10 last inside answered⟩

end Machine
end BitTape
