import BitTape.Proofs.Safety
import BitTape.Proofs.Stripping
import BitTape.Proofs.Trace

/-!
# Comments do not matter

A machine and a machine whose program lacks the comments stay together: they execute the same
instructions on the same store, and while the first passes over a comment the second waits.  Two
programs with the same instructions are compared through the program that has nothing else.
-/

namespace BitTape
namespace Machine

/-- A machine, and a machine at the same instruction of the program without comments. -/
structure Follows (program : Bytes) (machine bare : Machine) : Prop where
  sound : machine.Sound program
  bareSound : bare.Sound (strip program)
  counter_le : machine.counter ≤ program.length
  counter_eq : bare.counter = rank program machine.counter.toNat
  store_eq : bare.store = machine.store

section Simulation

variable {program : Bytes} {machine bare : Machine}

theorem Follows.isHalted (follows : Follows program machine bare)
    (halted : machine.isHalted = true) : bare.isHalted = true := by
  have atEnd : machine.counter.toNat = program.length := by
    have counter_le := follows.counter_le
    simp only [Machine.isHalted, follows.sound.code_eq, List.size_toArray,
      decide_eq_true_eq] at halted
    omega
  simp [Machine.isHalted, follows.bareSound.code_eq, follows.counter_eq, atEnd, rank_length]

theorem Follows.byte_eq (follows : Follows program machine bare) {byte : UInt8}
    (fetches : machine.Fetches byte) : program[machine.counter.toNat]? = some byte := by
  simpa [byte?, follows.sound.code_eq] using fetches.byte_eq

theorem Follows.goOn (follows : Follows program machine bare) (store : Store) {position : Nat}
    (position_le : position ≤ program.length) :
    Follows program (machine.goOn store position) (bare.goOn store (rank program position)) where
  sound := ⟨follows.sound.code_eq, follows.sound.accepted, Int.natCast_nonneg position⟩
  bareSound := ⟨follows.bareSound.code_eq, follows.bareSound.accepted, Int.natCast_nonneg _⟩
  counter_le := by simpa using position_le
  counter_eq := rfl
  store_eq := rfl

/-- While the machine passes over a comment, the other waits. -/
theorem Follows.pass_comment (follows : Follows program machine bare) {byte : UInt8}
    (fetches : machine.Fetches byte) (isNone : isInstruction byte = false) :
    ∃ next, machine.Step next ∧ next.counter = machine.counter + 1 ∧
      Follows program next bare := by
  have here := follows.byte_eq fetches
  have fetchesComment : machine.Fetches (Action.comment byte isNone).symbol := fetches
  have stepped := step_act fetchesComment
  refine ⟨_, ⟨fetches.isHalted, stepped⟩, rfl, ?_⟩
  have inside := (List.getElem?_eq_some_iff.mp here).1
  have nonneg := fetches.nonneg
  exact {
    sound := follows.sound.of_step ⟨fetches.isHalted, stepped⟩
    bareSound := follows.bareSound
    counter_le := by rw [counter_goOn]; omega
    counter_eq := by
      rw [counter_goOn, Int.toNat_add nonneg (by decide), follows.counter_eq]
      exact congrArg Nat.cast (rank_succ_of_comment here isNone).symm
    store_eq := follows.store_eq }

/-- Both machines carry out an instruction. -/
theorem Follows.step (follows : Follows program machine bare) {byte : UInt8}
    (fetches : machine.Fetches byte) (isOne : isInstruction byte = true) :
    bare.Fetches byte ∧ ∃ next bareNext, machine.Step next ∧ bare.Step bareNext ∧
      Follows program next bareNext := by
  have here := follows.byte_eq fetches
  have bareFetches : bare.Fetches byte := by
    refine fetches_of_counter follows.counter_eq ?_
    simpa [follows.bareSound.code_eq] using getElem?_rank here isOne
  refine ⟨bareFetches, ?_⟩
  have inside : machine.counter.toNat + 1 ≤ program.length := (List.getElem?_eq_some_iff.mp here).1
  have counter : machine.counter = machine.counter.toNat :=
    (Int.toNat_of_nonneg fetches.nonneg).symm
  have behind : machine.counter + 1 = (machine.counter.toNat + 1 : Nat) := by omega
  have bareBehind : bare.counter + 1 = rank program (machine.counter.toNat + 1) := by
    rw [rank_succ_of_instruction here isOne, follows.counter_eq]
    rfl
  have onBracket (bracket : Instruction) (isBracket : bracket = .loop ∨ bracket = .close)
      (same : byte = bracket.symbol) :
      ∃ next bareNext, machine.Step next ∧ bare.Step bareNext ∧
        Follows program next bareNext := by
    subst same
    rcases Instruction.passes_or_jumps isBracket machine.store.bit with passes | jumped
    · have stepped := step_pass fetches passes
      have bareStepped := step_pass bareFetches (follows.store_eq ▸ passes)
      rw [behind] at stepped
      rw [follows.store_eq, bareBehind] at bareStepped
      exact ⟨_, _, ⟨fetches.isHalted, stepped⟩, ⟨bareFetches.isHalted, bareStepped⟩,
        follows.goOn _ inside⟩
    · obtain ⟨target, linked, target_lt⟩ := follows.sound.exists_target isBracket fetches
      have bareLinked : bare.jumps.target? bare.counter = some (rank program target) := by
        rw [counter, JumpTable.target?_eq_some_iff,
          JumpTable.entry_iff_linked follows.sound.accepted] at linked
        rw [follows.counter_eq, JumpTable.target?_eq_some_iff,
          JumpTable.entry_iff_linked follows.bareSound.accepted]
        exact linked.strip
      have stepped := step_jump fetches jumped linked
      have bareStepped := step_jump bareFetches (follows.store_eq ▸ jumped) bareLinked
      rw [follows.store_eq] at bareStepped
      exact ⟨_, _, ⟨fetches.isHalted, stepped⟩, ⟨bareFetches.isHalted, bareStepped⟩,
        follows.goOn _ (Nat.le_of_lt target_lt)⟩
  obtain ⟨action, rfl⟩ | same | same := Action.byte_cases byte
  · have stepped := step_act fetches
    have bareStepped := step_act bareFetches
    rw [behind] at stepped
    rw [follows.store_eq, bareBehind] at bareStepped
    exact ⟨_, _, ⟨fetches.isHalted, stepped⟩, ⟨bareFetches.isHalted, bareStepped⟩,
      follows.goOn _ inside⟩
  · exact onBracket .loop (.inl rfl) same
  · exact onBracket .close (.inr rfl) same

theorem Follows.fetches (follows : Follows program machine bare)
    (running : machine.isHalted = false) : ∃ byte, machine.Fetches byte := by
  rcases fetches_cases follows.sound.nonneg running with ⟨action, fetches⟩ | ⟨bracket, -, fetches⟩
  · exact ⟨_, fetches⟩
  · exact ⟨_, fetches⟩

theorem Follows.runFor (follows : Follows program machine bare) {steps : Nat} {last : Machine}
    (answered : machine.runFor steps = some (.ok last)) :
    ∃ fewer bareLast, bare.runFor fewer = some (.ok bareLast) ∧ bareLast.store = last.store ∧
      bare.trace fewer = strip (machine.trace steps) := by
  induction steps generalizing machine bare with
  | zero =>
      cases halted : machine.isHalted with
      | false => simp [Machine.runFor, halted] at answered
      | true =>
          rw [runFor_of_isHalted halted] at answered
          obtain rfl := Except.ok.inj (Option.some.inj answered)
          exact ⟨0, bare, runFor_of_isHalted (follows.isHalted halted) 0, follows.store_eq, rfl⟩
  | succ steps ih =>
      cases halted : machine.isHalted with
      | true =>
          rw [runFor_of_isHalted halted] at answered
          obtain rfl := Except.ok.inj (Option.some.inj answered)
          refine ⟨0, bare, runFor_of_isHalted (follows.isHalted halted) 0, follows.store_eq, ?_⟩
          rw [trace_of_isHalted halted]
          rfl
      | false =>
          obtain ⟨byte, fetches⟩ := follows.fetches halted
          cases isOne : isInstruction byte with
          | false =>
              obtain ⟨next, step, -, follows⟩ := follows.pass_comment fetches isOne
              rw [runFor_succ_of_step step] at answered
              rw [trace_succ_of_step fetches step.2, strip_cons_of_comment isOne]
              exact ih follows answered
          | true =>
              obtain ⟨bareFetches, next, bareNext, step, bareStep, follows⟩ :=
                follows.step fetches isOne
              rw [runFor_succ_of_step step] at answered
              obtain ⟨fewer, bareLast, bareAnswered, sameStore, sameTrace⟩ := ih follows answered
              refine ⟨fewer + 1, bareLast, ?_, sameStore, ?_⟩
              · rw [runFor_succ_of_step bareStep, bareAnswered]
              · rw [trace_succ_of_step bareFetches bareStep.2, sameTrace,
                  trace_succ_of_step fetches step.2, strip_cons_of_instruction isOne]

/-- A machine passes over the comments before the next instruction, or to the end of its program. -/
theorem Follows.skip_comments (follows : Follows program machine bare) :
    ∃ next, machine.Steps next ∧ Follows program next bare ∧
      (next.isHalted = true ∨ ∃ byte, next.Fetches byte ∧ isInstruction byte = true) := by
  induction gap : program.length - machine.counter.toNat generalizing machine with
  | zero =>
      refine ⟨machine, .refl, follows, .inl ?_⟩
      have nonneg := follows.sound.nonneg
      simp only [Machine.isHalted, follows.sound.code_eq, List.size_toArray, decide_eq_true_eq]
      omega
  | succ gap ih =>
      cases halted : machine.isHalted with
      | true => exact ⟨machine, .refl, follows, .inl halted⟩
      | false =>
          obtain ⟨byte, fetches⟩ := follows.fetches halted
          cases isOne : isInstruction byte with
          | true => exact ⟨machine, .refl, follows, .inr ⟨byte, fetches, isOne⟩⟩
          | false =>
              obtain ⟨next, step, counter, nextFollows⟩ := follows.pass_comment fetches isOne
              have nonneg := fetches.nonneg
              obtain ⟨last, steps, lastFollows, found⟩ := ih nextFollows (by omega)
              exact ⟨last, .head step steps, lastFollows, found⟩

theorem Follows.runFor_of_bare (follows : Follows program machine bare) {steps : Nat}
    {bareLast : Machine} (answered : bare.runFor steps = some (.ok bareLast)) :
    ∃ more last, machine.runFor more = some (.ok last) := by
  induction steps using Nat.strongRecOn generalizing machine bare with
  | ind steps ih =>
      obtain ⟨next, path, nextFollows, halted | ⟨byte, fetches, isOne⟩⟩ := follows.skip_comments
      · obtain ⟨more, ended⟩ := runFor_of_steps path (runFor_of_isHalted halted 0)
        exact ⟨more, next, ended⟩
      · obtain ⟨-, after, bareAfter, step, bareStep, afterFollows⟩ :=
          nextFollows.step fetches isOne
        obtain ⟨fewer, fewer_lt, answered⟩ := runFor_after_transGen (.single bareStep) answered
        obtain ⟨more, last, ended⟩ := ih fewer fewer_lt afterFollows answered
        obtain ⟨more, ended⟩ := runFor_of_steps (path.tail step) ended
        exact ⟨more, last, ended⟩

end Simulation

/-! ## Two programs with the same instructions -/

/-- Two machines that are followed by the same bare machine end together, if at all. -/
theorem Follows.agree {first second : Bytes} {machine other bare : Machine}
    (follows : Follows first machine bare) (followsToo : Follows second other bare) {steps : Nat}
    {last : Machine} (ended : machine.runFor steps = some (.ok last)) :
    ∃ otherSteps otherLast, other.runFor otherSteps = some (.ok otherLast) ∧
      otherLast.store = last.store ∧
      strip (other.trace otherSteps) = strip (machine.trace steps) := by
  obtain ⟨bareSteps, bareLast, bareEnded, sameStore, sameTrace⟩ := follows.runFor ended
  obtain ⟨otherSteps, otherLast, otherEnded⟩ := followsToo.runFor_of_bare bareEnded
  obtain ⟨count, bareOther, bareEndedToo, otherStore, otherTrace⟩ :=
    followsToo.runFor otherEnded
  obtain rfl := Except.ok.inj (runFor_unique bareEnded bareEndedToo)
  refine ⟨otherSteps, otherLast, otherEnded, otherStore.symm.trans sameStore, ?_⟩
  rw [← otherTrace, ← sameTrace, trace_unique bareEnded bareEndedToo]

/-- A machine that has just been loaded with an input. -/
def start (program : Bytes) (jumps : JumpTable) (input : Bytes) : Machine :=
  { fresh program jumps with input := .ofBytes input }

theorem load_of_accepted {program : Bytes} {jumps : JumpTable}
    (accepted : JumpTable.ofProgram program = .ok jumps) (input : Bytes) :
    load program [.input input] = .ok (start program jumps input) := by
  simp [load, accepted, configure, Setting.input, start]

theorem run_start (program : Bytes) (jumps : JumpTable) (input : Bytes) (steps : Nat) :
    (start program jumps input).run steps = (start program jumps input).runFor steps := rfl

theorem sound_start {program : Bytes} {jumps : JumpTable}
    (accepted : JumpTable.ofProgram program = .ok jumps) (input : Bytes) :
    (start program jumps input).Sound program :=
  ⟨rfl, accepted, Int.le_refl 0⟩

theorem follows_start {program : Bytes} {jumps bareJumps : JumpTable}
    (accepted : JumpTable.ofProgram program = .ok jumps)
    (bareAccepted : JumpTable.ofProgram (strip program) = .ok bareJumps) (input : Bytes) :
    Follows program (start program jumps input) (start (strip program) bareJumps input) where
  sound := sound_start accepted input
  bareSound := sound_start bareAccepted input
  counter_le := Int.natCast_nonneg program.length
  counter_eq := rfl
  store_eq := rfl

section Agreement

variable {first second : Bytes} {jumps otherJumps : JumpTable}

theorem run_agrees_of_strip_eq (same : strip first = strip second)
    (accepted : JumpTable.ofProgram first = .ok jumps)
    (acceptedToo : JumpTable.ofProgram second = .ok otherJumps) (input : Bytes) {steps : Nat}
    {last : Machine} (ended : (start first jumps input).run steps = some (.ok last)) :
    ∃ otherSteps otherLast,
      (start second otherJumps input).run otherSteps = some (.ok otherLast) ∧
        otherLast.store = last.store ∧
        strip ((start second otherJumps input).trace otherSteps) =
          strip ((start first jumps input).trace steps) := by
  have balanced : Balanced (strip first) :=
    (balanced_strip_iff first).mpr ((JumpTable.ofProgram_isOk_iff first).mp ⟨jumps, accepted⟩)
  obtain ⟨bareJumps, bareAccepted⟩ := (JumpTable.ofProgram_isOk_iff _).mpr balanced
  have follows := follows_start accepted bareAccepted input
  have followsToo := follows_start acceptedToo (same ▸ bareAccepted) input
  rw [← same] at followsToo
  exact follows.agree followsToo ended

theorem executed_sub_comments {machine last : Machine} {steps : Nat} (fresh : machine.executed = 0)
    (ended : machine.runFor steps = some (.ok last)) :
    (last.executed : Int) - (machine.trace steps).countP (fun byte => !isInstruction byte) =
      (strip (machine.trace steps)).length := by
  have counted := executed_of_runFor ended
  have split := List.length_eq_countP_add_countP isInstruction (l := machine.trace steps)
  rw [strip, ← List.countP_eq_length_filter]
  simp only [Bool.not_eq_true, Bool.decide_eq_false] at split
  omega

/-- The runs of two loaded programs with the same instructions end together, if at all. -/
theorem runs_agree (same : strip first = strip second)
    (accepted : JumpTable.ofProgram first = .ok jumps)
    (acceptedToo : JumpTable.ofProgram second = .ok otherJumps) (input : Bytes) :
    (∀ steps, (start first jumps input).run steps = none) ∧
        (∀ steps, (start second otherJumps input).run steps = none) ∨
      ∃ steps last otherSteps otherLast,
        (start first jumps input).run steps = some (.ok last) ∧
        (start second otherJumps input).run otherSteps = some (.ok otherLast) ∧
        otherLast.store = last.store ∧
        strip ((start second otherJumps input).trace otherSteps) =
          strip ((start first jumps input).trace steps) := by
  by_cases ends : ∃ steps last, (start first jumps input).run steps = some (.ok last)
  · right
    obtain ⟨steps, last, ended⟩ := ends
    obtain ⟨otherSteps, otherLast, otherEnded, sameStore, sameTrace⟩ :=
      run_agrees_of_strip_eq same accepted acceptedToo input ended
    exact ⟨steps, last, otherSteps, otherLast, ended, otherEnded, sameStore, sameTrace⟩
  · left
    constructor
    · intro steps
      match answered : (start first jumps input).run steps with
      | none => rfl
      | some (.ok last) => exact (ends ⟨steps, last, answered⟩).elim
      | some (.error crash) =>
          exact ((sound_start accepted input).run_ne_error steps crash answered).elim
    · intro steps
      match answered : (start second otherJumps input).run steps with
      | none => rfl
      | some (.ok otherLast) =>
          obtain ⟨count, last, ended, -⟩ :=
            run_agrees_of_strip_eq same.symm acceptedToo accepted input answered
          exact (ends ⟨count, last, ended⟩).elim
      | some (.error crash) =>
          exact ((sound_start acceptedToo input).run_ne_error steps crash answered).elim

theorem exists_error_iff (program : Bytes) :
    (∃ bracket, JumpTable.ofProgram program = .error bracket) ↔ ¬Balanced program := by
  rw [← JumpTable.ofProgram_isOk_iff]
  cases JumpTable.ofProgram program <;> simp

theorem interpret_of_strip_eq (same : strip first = strip second) {input output : Bytes}
    {steps : Nat} (answered : interpret steps first input = some (.ok output)) :
    ∃ otherSteps, interpret otherSteps second input = some (.ok output) := by
  cases accepted : JumpTable.ofProgram first with
  | error bracket => simp [interpret, load, accepted] at answered
  | ok jumps =>
      have balanced : Balanced second := by
        rw [← balanced_strip_iff, ← same, balanced_strip_iff]
        exact (JumpTable.ofProgram_isOk_iff first).mp ⟨jumps, accepted⟩
      obtain ⟨otherJumps, acceptedToo⟩ := (JumpTable.ofProgram_isOk_iff second).mpr balanced
      rw [interpret, load_of_accepted accepted] at answered
      simp only at answered
      split at answered
      · cases answered
      · cases answered
      · rename_i last ended
        obtain ⟨otherSteps, otherLast, otherEnded, sameStore, -⟩ :=
          run_agrees_of_strip_eq same accepted acceptedToo input ended
        have sameOutput : otherLast.output = last.output := congrArg Store.output sameStore
        refine ⟨otherSteps, ?_⟩
        rw [interpret_eq_ok (load_of_accepted acceptedToo input) otherEnded, ← answered,
          outputBytes, outputBytes, sameOutput]

end Agreement

/-- Programs with the same instructions in the same order are rejected at the same bracket, or run
alike on every input and count equally many bytes besides the comments. -/
theorem run_ignores_comments {first second : Bytes} (same : strip first = strip second) :
    ((∃ bracket, JumpTable.ofProgram first = .error bracket) ↔
      ∃ bracket, JumpTable.ofProgram second = .error bracket) ∧
    (∀ reported other, JumpTable.ofProgram first = .error reported →
      JumpTable.ofProgram second = .error other →
        (strip (first.take reported.position)).length =
          (strip (second.take other.position)).length ∧
        ∃ bracket : Instruction, (bracket = .loop ∨ bracket = .close) ∧
          first[reported.position]? = some bracket.symbol ∧
          second[other.position]? = some bracket.symbol) ∧
    (∀ jumps otherJumps, JumpTable.ofProgram first = .ok jumps →
      JumpTable.ofProgram second = .ok otherJumps → ∀ input, ∃ machine other,
        load first [.input input] = .ok machine ∧ load second [.input input] = .ok other ∧
        ((∀ steps, machine.run steps = none) ∧ (∀ steps, other.run steps = none) ∨
          ∃ steps last otherSteps otherLast,
            machine.run steps = some (.ok last) ∧ other.run otherSteps = some (.ok otherLast) ∧
            last.output = otherLast.output ∧ last.tape.bits = otherLast.tape.bits ∧
            last.head = otherLast.head ∧ last.input.position = otherLast.input.position ∧
            (last.executed : Int) -
                (machine.trace steps).countP (fun byte => !isInstruction byte) =
              otherLast.executed -
                (other.trace otherSteps).countP (fun byte => !isInstruction byte))) ∧
    ∀ input output,
      (∃ steps, interpret steps (strip first) input = some (.ok output)) ↔
        ∃ steps, interpret steps first input = some (.ok output) := by
  refine ⟨?_, ?_, ?_, ?_⟩
  · rw [exists_error_iff, exists_error_iff, ← balanced_strip_iff first, same,
      balanced_strip_iff]
  · rintro ⟨position⟩ ⟨otherPosition⟩ failed failedToo
    obtain ⟨bareFailed, bracket, isBracket, here⟩ := JumpTable.ofProgram_strip_of_error failed
    obtain ⟨bareFailedToo, otherBracket, isBracketToo, hereToo⟩ :=
      JumpTable.ofProgram_strip_of_error failedToo
    rw [same, bareFailedToo] at bareFailed
    obtain sameRank : rank second otherPosition = rank first position := by
      simpa using bareFailed
    have bare := getElem?_rank here (isInstruction_symbol bracket)
    have bareToo := getElem?_rank hereToo (isInstruction_symbol otherBracket)
    rw [same, ← sameRank, bareToo] at bare
    exact ⟨sameRank.symm, bracket, isBracket, here, hereToo.trans bare⟩
  · intro jumps otherJumps accepted acceptedToo input
    refine ⟨_, _, load_of_accepted accepted input, load_of_accepted acceptedToo input, ?_⟩
    refine (runs_agree same accepted acceptedToo input).imp_right ?_
    rintro ⟨steps, last, otherSteps, otherLast, ended, otherEnded, sameStore, sameTrace⟩
    refine ⟨steps, last, otherSteps, otherLast, ended, otherEnded, ?_, ?_, ?_, ?_, ?_⟩
    · exact congrArg Store.output sameStore.symm
    · exact congrArg (fun store : Store => store.tape.bits) sameStore.symm
    · exact congrArg Store.head sameStore.symm
    · exact congrArg (fun store : Store => store.input.position) sameStore.symm
    · rw [run_start] at ended otherEnded
      rw [executed_sub_comments rfl ended, executed_sub_comments rfl otherEnded, sameTrace]
  · intro input output
    have strip_strip : strip (strip first) = strip first := by simp [strip]
    constructor
    · rintro ⟨steps, answered⟩
      exact interpret_of_strip_eq strip_strip answered
    · rintro ⟨steps, answered⟩
      exact interpret_of_strip_eq strip_strip.symm answered

/-- A program with comments inside and outside of its loop copies the same bits as without them. -/
theorem run_ignores_comments_in_loop :
    ∃ other otherSteps otherLast,
      load (text "read,[write;read,]end") [.input [11]] = .ok other ∧
      other.run otherSteps = some (.ok otherLast) ∧ otherLast.output = #[true, true] := by
  have same : strip (text ",[;,]") = strip (text "read,[write;read,]end") := rfl
  obtain ⟨known, knownLoaded, last, ended, written⟩ : ∃ known,
      load (text ",[;,]") [.input [11]] = .ok known ∧ ∃ last,
        known.run 9 = some (.ok last) ∧ last.output = #[true, true] :=
    ⟨_, rfl, _, rfl, rfl⟩
  obtain ⟨-, -, agree, -⟩ := run_ignores_comments same
  obtain ⟨machine, other, loaded, loadedToo, outcome⟩ := agree _ _ rfl rfl [11]
  rw [knownLoaded] at loaded
  obtain rfl := Except.ok.inj loaded
  rcases outcome with
    ⟨endless, -⟩ | ⟨steps, otherwise, otherSteps, otherLast, answered, answeredToo, sameOutput, -⟩
  · rw [endless 9] at ended
    cases ended
  · obtain rfl := Except.ok.inj (runFor_unique answered ended)
    exact ⟨other, otherSteps, otherLast, loadedToo, answeredToo, sameOutput.symm.trans written⟩

end Machine
end BitTape
