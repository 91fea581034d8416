import BitTape.Proofs.StrippedRun
import BitTape.Proofs.StructuredRun

/-!
# Left and right

A program in which the two moves are exchanged does on the one side of the tape what the program
does on the other.  The cells of its machine are those of the other machine at the opposite
positions, for runs of any length, so both programs have the same output.  The extents of the two
tapes are exchanged as well, except that the cell at position zero belongs to the right side of
both; this holds as long as the run is too short for an extent to overflow.
-/

namespace BitTape

/-! ## The program -/

/-- The byte with the two moves exchanged. -/
def mirrorByte (byte : UInt8) : UInt8 :=
  if byte = Instruction.left.symbol then Instruction.right.symbol
  else if byte = Instruction.right.symbol then Instruction.left.symbol
  else byte

/-- The program with the two moves exchanged. -/
def mirror (program : Bytes) : Bytes :=
  program.map mirrorByte

/-- The action with the two moves exchanged. -/
def Action.mirror : Action → Action
  | left => right
  | right => left
  | action => action

theorem Action.symbol_mirror (action : Action) :
    action.mirror.symbol = mirrorByte action.symbol := by
  cases action with
  | comment byte plain =>
      have notLeft : byte ≠ Instruction.left.symbol := by
        rintro rfl
        cases plain
      have notRight : byte ≠ Instruction.right.symbol := by
        rintro rfl
        cases plain
      simp [Action.mirror, symbol, mirrorByte, notLeft, notRight]
  | _ => rfl

theorem mirrorByte_bracket {bracket : Instruction}
    (isBracket : bracket = .loop ∨ bracket = .close) :
    mirrorByte bracket.symbol = bracket.symbol := by
  rcases isBracket with rfl | rfl <;> rfl

namespace JumpTable

theorem scan_mirror (program : Bytes) (opened : List Nat) (entries : Array (Option Nat)) :
    scan (mirror program) opened entries = scan program opened entries := by
  induction program generalizing opened entries with
  | nil => rfl
  | cons byte rest ih =>
      have split : mirror (byte :: rest) = mirrorByte byte :: mirror rest := rfl
      rw [split]
      obtain ⟨action, rfl⟩ | rfl | rfl := Action.byte_cases byte
      · rw [← Action.symbol_mirror, scan_act, scan_act, ih]
      · rw [mirrorByte_bracket (.inl rfl), scan_loop, scan_loop, ih]
      · rw [mirrorByte_bracket (.inr rfl)]
        cases opened with
        | nil => rw [scan_close_nil, scan_close_nil]
        | cons partner outer => rw [scan_close_cons, scan_close_cons, ih]

theorem ofProgram_mirror (program : Bytes) : ofProgram (mirror program) = ofProgram program :=
  scan_mirror program [] #[]

end JumpTable

/-! ## The contents of the cells -/

namespace Contents

/-- The contents with every cell and the head at the opposite position. -/
def mirror (contents : Contents) : Contents :=
  { contents with cells := fun position => contents.cells (-position), head := -contents.head }

theorem mirror_overwrite (contents : Contents) (bit : Bool) :
    (contents.overwrite bit).mirror = contents.mirror.overwrite bit := by
  have cells (position : Int64) :
      (if -position = contents.head then bit else contents.cells (-position)) =
        if position = -contents.head then bit else contents.cells (-position) := by
    by_cases here : position = -contents.head
    · rw [if_pos here, if_pos (by grind)]
    · rw [if_neg here, if_neg (by grind)]
  exact congrArg (fun cells : Int64 → Bool => { contents.mirror with cells }) (funext cells)

/-- Opposite actions have opposite effects. -/
theorem mirror_perform (action : Action) (contents : Contents) :
    (contents.perform action).mirror = contents.mirror.perform action.mirror := by
  have here : contents.mirror.cells contents.mirror.head = contents.cells contents.head := by
    simp [mirror]
  cases action with
  | flip =>
      rw [perform, mirror_overwrite, ← here]
      rfl
  | read =>
      have overwritten := mirror_overwrite contents contents.input.next.1
      exact congrArg (fun after : Contents => { after with input := contents.input.next.2 })
        overwritten
  | write =>
      exact congrArg
        (fun bit : Bool => { contents.mirror with output := contents.output.push bit }) here.symm
  | left =>
      have turned : -(contents.head - 1) = -contents.head + 1 := by grind
      simp [perform, Action.mirror, mirror, turned]
  | right =>
      have turned : -(contents.head + 1) = -contents.head - 1 := by grind
      simp [perform, Action.mirror, mirror, turned]
  | comment byte plain => rfl

end Contents

/-! ## The extent of the tape -/

namespace Tape

/-- Tapes with exchanged extents, the first with the head on it and no longer than a run of some age
can have made it. -/
structure Opposed (age : Nat) (tape : Tape) (head : Int64) (other : Tape) : Prop where
  left_nonneg : 0 ≤ tape.leftExtent.toInt
  right_pos : 0 < tape.rightExtent.toInt
  head_ge : -tape.leftExtent.toInt ≤ head.toInt
  head_lt : head.toInt < tape.rightExtent.toInt
  length_le : tape.leftExtent.toInt + tape.rightExtent.toInt ≤ age + 1
  left_eq : other.leftExtent.toInt = tape.rightExtent.toInt - 1
  right_eq : other.rightExtent.toInt = tape.leftExtent.toInt + 1

theorem opposed_blank : Opposed 0 blank 0 blank := by
  constructor <;> decide

namespace Opposed

variable {age : Nat} {tape other : Tape} {head : Int64}

theorem grow_older (opposed : Opposed age tape head other) : Opposed (age + 1) tape head other :=
  { opposed with length_le := by have length_le := opposed.length_le; omega }

theorem congr {first second : Tape} (opposed : Opposed age tape head other)
    (left : first.leftExtent = tape.leftExtent) (right : first.rightExtent = tape.rightExtent)
    (otherLeft : second.leftExtent = other.leftExtent)
    (otherRight : second.rightExtent = other.rightExtent) : Opposed age first head second := by
  obtain ⟨left_nonneg, right_pos, head_ge, head_lt, length_le, left_eq, right_eq⟩ := opposed
  constructor <;> simpa only [left, right, otherLeft, otherRight]

theorem visit (opposed : Opposed age tape head other) (young : age < 2 ^ 62) {position : Int64}
    (low : head.toInt - 1 ≤ position.toInt) (high : position.toInt ≤ head.toInt + 1) :
    Opposed (age + 1) (tape.visit position) position (other.visit (-position)) := by
  obtain ⟨left_nonneg, right_pos, head_ge, head_lt, length_le, left_eq, right_eq⟩ := opposed
  have opposite : (-position).toInt = -position.toInt := toInt_neg_of_fits (by omega)
  have right := tape.toInt_rightExtent_visit position (by omega)
  have left := tape.toInt_leftExtent_visit position (by omega) left_nonneg (by omega)
  have otherRight := other.toInt_rightExtent_visit (-position) (by omega)
  have otherLeft := other.toInt_leftExtent_visit (-position) (by omega) (by omega) (by omega)
  constructor <;> omega

theorem toInt_neg_head (opposed : Opposed age tape head other) (young : age < 2 ^ 62) :
    (-head).toInt = -head.toInt := by
  obtain ⟨-, right_pos, head_ge, -, length_le, -, -⟩ := opposed
  exact toInt_neg_of_fits (by omega)

theorem toInt_length (opposed : Opposed age tape head other) (young : age < 2 ^ 62) :
    tape.length.toInt = tape.leftExtent.toInt + tape.rightExtent.toInt := by
  obtain ⟨left_nonneg, right_pos, -, -, length_le, -, -⟩ := opposed
  exact toInt_add_of_fits (by omega) (by omega)

theorem length_eq (opposed : Opposed age tape head other) (young : age < 2 ^ 62) :
    other.length = tape.length := by
  have length := opposed.toInt_length young
  obtain ⟨left_nonneg, right_pos, -, -, length_le, left_eq, right_eq⟩ := opposed
  apply Int64.toInt_inj.mp
  rw [length, Tape.length, toInt_add_of_fits (by omega) (by omega)]
  omega

theorem toInt_index (opposed : Opposed age tape head other) (young : age < 2 ^ 62) :
    (other.index (-head)).toInt = tape.length.toInt - 1 - (tape.index head).toInt := by
  have length := opposed.toInt_length young
  have opposite := opposed.toInt_neg_head young
  obtain ⟨left_nonneg, right_pos, head_ge, head_lt, length_le, left_eq, right_eq⟩ := opposed
  rw [length, Tape.index, Tape.index, toInt_add_of_fits (by omega) (by omega),
    toInt_add_of_fits (by omega) (by omega)]
  omega

variable (mirrored : ∀ position, other.cell (-position) = tape.cell position)
include mirrored

theorem bitAt_neg (position : Int) (low : -2 ^ 63 < position) (high : position < 2 ^ 63) :
    other.bitAt (-position) = tape.bitAt position := by
  have word : (Int64.ofInt position).toInt = position :=
    Int64.toInt_ofInt_of_le (by omega) high
  have opposite : (-Int64.ofInt position).toInt = -position := by
    rw [toInt_neg_of_fits (by omega), word]
  have same := mirrored (Int64.ofInt position)
  rwa [← bitAt_toInt, ← bitAt_toInt, opposite, word] at same

/-- The visited cells of the other tape stand in opposite order. -/
theorem bits_eq (opposed : Opposed age tape head other) (young : age < 2 ^ 62) :
    other.bits = tape.bits.reverse := by
  obtain ⟨left_nonneg, right_pos, -, -, length_le, left_eq, right_eq⟩ := opposed
  have length := tape.length_bits
  have otherLength := other.length_bits
  apply List.ext_getElem?
  intro place
  by_cases inside : place < tape.bits.length
  · rw [List.getElem?_reverse inside, other.getElem?_bits (by omega) (by omega),
      tape.getElem?_bits left_nonneg (by omega)]
    have turned := bitAt_neg mirrored (other.leftExtent.toInt - place) (by omega) (by omega)
    rw [Int.neg_sub] at turned
    rw [turned]
    congr 2
    omega
  · rw [List.getElem?_eq_none (by omega), List.getElem?_eq_none (by simpa using inside)]

end Opposed
end Tape

/-! ## Two machines -/

namespace Store

/-- The other store has opposite contents and, after a short run, opposite extents. -/
structure Mirrors (age : Nat) (store other : Store) : Prop where
  contents_eq : other.contents = store.contents.mirror
  opposed : age < 2 ^ 62 → store.tape.Opposed age store.head other.tape

namespace Mirrors

variable {age : Nat} {store other : Store}

theorem head_eq (mirrors : Mirrors age store other) : other.head = -store.head :=
  congrArg Contents.head mirrors.contents_eq

theorem cell_neg (mirrors : Mirrors age store other) (position : Int64) :
    other.tape.cell (-position) = store.tape.cell position := by
  have cells : other.tape.cell = fun position => store.tape.cell (-position) :=
    congrArg Contents.cells mirrors.contents_eq
  simp [cells]

theorem bit_eq (mirrors : Mirrors age store other) : other.bit = store.bit := by
  rw [Store.bit, mirrors.head_eq, mirrors.cell_neg]
  rfl

/-- A visit of the head's cell, or of the next one on either side, is mirrored. -/
theorem opposed_visit (mirrors : Mirrors age store other) (young : age + 1 < 2 ^ 62)
    {position opposite : Int64} (turned : opposite = -position)
    (low : store.head.toInt - 1 ≤ position.toInt) (high : position.toInt ≤ store.head.toInt + 1) :
    (store.tape.visit position).Opposed (age + 1) position (other.tape.visit opposite) := by
  rw [turned]
  exact (mirrors.opposed (by omega)).visit (by omega) low high

theorem look (mirrors : Mirrors age store other) : Mirrors (age + 1) store.look other.look where
  contents_eq := by rw [contents_look, contents_look, mirrors.contents_eq]
  opposed young := mirrors.opposed_visit young mirrors.head_eq (by omega) (by omega)

theorem perform (mirrors : Mirrors age store other) (action : Action) :
    Mirrors (age + 1) (store.perform action) (other.perform action.mirror) where
  contents_eq := by
    rw [contents_perform, contents_perform, mirrors.contents_eq, Contents.mirror_perform]
  opposed young := by
    have opposed := mirrors.opposed (by omega)
    have here := mirrors.opposed_visit young mirrors.head_eq (by omega) (by omega)
    obtain ⟨left_nonneg, right_pos, head_ge, head_lt, length_le, -, -⟩ := id opposed
    cases action with
    | flip =>
        exact here.congr (Tape.leftExtent_flip ..) (Tape.rightExtent_flip ..)
          (Tape.leftExtent_flip ..) (Tape.rightExtent_flip ..)
    | read =>
        exact here.congr (Tape.leftExtent_set ..) (Tape.rightExtent_set ..)
          (Tape.leftExtent_set ..) (Tape.rightExtent_set ..)
    | write => exact here
    | left =>
        have moved : (store.head - 1).toInt = store.head.toInt - 1 := toInt_sub_one (by omega)
        have turned : other.head + 1 = -(store.head - 1) := by
          rw [mirrors.head_eq]
          grind
        exact mirrors.opposed_visit young turned (by omega) (by omega)
    | right =>
        have moved : (store.head + 1).toInt = store.head.toInt + 1 := toInt_add_one (by omega)
        have turned : other.head - 1 = -(store.head + 1) := by
          rw [mirrors.head_eq]
          grind
        exact mirrors.opposed_visit young turned (by omega) (by omega)
    | comment byte plain => exact opposed.grow_older

end Mirrors
end Store

namespace Machine

/-- The other machine does the same on the other side. -/
structure Mirrors (age : Nat) (machine other : Machine) : Prop where
  code_eq : other.code = machine.code.map mirrorByte
  jumps_eq : other.jumps = machine.jumps
  counter_eq : other.counter = machine.counter
  executed_eq : other.executed = machine.executed
  stores : machine.store.Mirrors age other.store

namespace Mirrors

variable {age : Nat} {machine other : Machine}

theorem isHalted_eq (mirrors : Mirrors age machine other) :
    other.isHalted = machine.isHalted := by
  simp [Machine.isHalted, mirrors.code_eq, mirrors.counter_eq]

theorem fetches (mirrors : Mirrors age machine other) {byte : UInt8}
    (fetches : machine.Fetches byte) : other.Fetches (mirrorByte byte) := by
  obtain ⟨nonneg, present⟩ := fetches
  rw [byte?] at present
  refine ⟨mirrors.counter_eq ▸ nonneg, ?_⟩
  rw [byte?, mirrors.counter_eq, mirrors.code_eq, Array.getElem?_map, present]
  rfl

theorem goOn (mirrors : Mirrors age machine other) {store otherStore : Store}
    (stores : store.Mirrors (age + 1) otherStore) (counter : Int) :
    Mirrors (age + 1) (machine.goOn store counter) (other.goOn otherStore counter) where
  code_eq := mirrors.code_eq
  jumps_eq := mirrors.jumps_eq
  counter_eq := rfl
  executed_eq := congrArg (· + 1) mirrors.executed_eq
  stores := stores

/-- Both machines carry out an instruction, and stay mirror images. -/
theorem step (mirrors : Mirrors age machine other) {next : Machine} (step : machine.Step next) :
    ∃ otherNext, other.Step otherNext ∧ Mirrors (age + 1) next otherNext := by
  have running : other.isHalted = false := mirrors.isHalted_eq.trans step.1
  rcases step.cases with ⟨action, fetches, rfl⟩ | ⟨bracket, isBracket, fetches, outcome⟩
  · have otherFetches := mirrors.fetches fetches
    rw [← Action.symbol_mirror] at otherFetches
    refine ⟨_, ⟨running, step_act otherFetches⟩, ?_⟩
    rw [mirrors.counter_eq]
    exact mirrors.goOn (mirrors.stores.perform action) _
  · have otherFetches := mirrors.fetches fetches
    rw [mirrorByte_bracket isBracket] at otherFetches
    have sameBit := mirrors.stores.bit_eq
    rcases outcome with ⟨passes, rfl⟩ | ⟨jumped, target, linked, rfl⟩
    · refine ⟨_, ⟨running, step_pass otherFetches (sameBit ▸ passes)⟩, ?_⟩
      rw [mirrors.counter_eq]
      exact mirrors.goOn mirrors.stores.look _
    · rw [← mirrors.jumps_eq, ← mirrors.counter_eq] at linked
      exact ⟨_, ⟨running, step_jump otherFetches (sameBit ▸ jumped) linked⟩,
        mirrors.goOn mirrors.stores.look _⟩

/-- After the same number of instructions the machines are still mirror images. -/
theorem proceed (mirrors : Mirrors age machine other) {steps : Nat} {last : Machine}
    (proceeded : machine.proceed steps = .ok last) :
    ∃ otherLast, other.proceed steps = .ok otherLast ∧
      ∃ later ≤ age + steps, Mirrors later last otherLast := by
  induction steps generalizing age machine other with
  | zero =>
      obtain rfl := Except.ok.inj proceeded
      exact ⟨other, rfl, age, by omega, mirrors⟩
  | succ steps ih =>
      cases halted : machine.isHalted with
      | true =>
          rw [proceed_of_isHalted halted] at proceeded
          obtain rfl := Except.ok.inj proceeded
          exact ⟨other, proceed_of_isHalted (mirrors.isHalted_eq.trans halted) _, age, by omega,
            mirrors⟩
      | false =>
          cases stepped : machine.step with
          | error crash => simp [Machine.proceed, halted, stepped] at proceeded
          | ok next =>
              have step : machine.Step next := ⟨halted, stepped⟩
              obtain ⟨otherNext, otherStep, nextMirrors⟩ := mirrors.step step
              rw [proceed_succ_of_step step] at proceeded
              obtain ⟨otherLast, otherProceeded, later, later_le, lastMirrors⟩ :=
                ih nextMirrors proceeded
              refine ⟨otherLast, ?_, later, by omega, lastMirrors⟩
              rw [proceed_succ_of_step otherStep, otherProceeded]

end Mirrors

theorem mirrors_start (program : Bytes) (jumps : JumpTable) (input : Bytes) :
    Mirrors 0 (start program jumps input) (start (mirror program) jumps input) where
  code_eq := by simp [start, fresh, mirror]
  jumps_eq := rfl
  counter_eq := rfl
  executed_eq := rfl
  stores :=
    { contents_eq := by simp [store, start, fresh, Store.contents, Contents.mirror, funext_iff]
      opposed := fun _ => Tape.opposed_blank }

theorem exists_mirrors_of_accepted {program : Bytes} {jumps : JumpTable}
    (accepted : JumpTable.ofProgram program = .ok jumps) (input : Bytes) (steps : Nat) :
    ∃ last otherLast, (start program jumps input).proceed steps = .ok last ∧
      (start (mirror program) jumps input).proceed steps = .ok otherLast ∧
      ∃ age ≤ steps, Mirrors age last otherLast := by
  obtain ⟨last, proceeded, -⟩ := (sound_start accepted input).proceed steps
  obtain ⟨otherLast, otherProceeded, age, age_le, mirrors⟩ :=
    (mirrors_start program jumps input).proceed proceeded
  exact ⟨last, otherLast, proceeded, otherProceeded, age, by omega, mirrors⟩

/-- A program and its mirror image have the same result, after the same number of instructions. -/
theorem interpret_mirror (steps : Nat) (program input : Bytes) :
    interpret steps (mirror program) input = interpret steps program input := by
  cases accepted : JumpTable.ofProgram program with
  | error bracket => simp [interpret, load, JumpTable.ofProgram_mirror, accepted]
  | ok jumps =>
      obtain ⟨last, otherLast, proceeded, otherProceeded, _, -, mirrors⟩ :=
        exists_mirrors_of_accepted accepted input steps
      have acceptedToo := (JumpTable.ofProgram_mirror program).trans accepted
      have sameOutput : otherLast.output = last.output :=
        congrArg Contents.output mirrors.stores.contents_eq
      rw [interpret, interpret, load_of_accepted accepted, load_of_accepted acceptedToo]
      simp only [run_start, runFor_eq_proceed, proceeded, otherProceeded, mirrors.isHalted_eq]
      cases last.isHalted with
      | false => rfl
      | true => simp [outputBytes, sameOutput]

/-- With left and right exchanged a balanced program runs alike: the head is at the opposite
position, the cells stand in opposite order, and the result is the same. -/
theorem mirror_runs_alike {program : Bytes} (balanced : Balanced program) (input : Bytes) :
    ∃ first other, load program [.input input] = .ok first ∧
      load (mirror program) [.input input] = .ok other ∧
      (∀ steps < 2 ^ 62, ∃ machine image,
        first.proceed steps = .ok machine ∧ other.proceed steps = .ok image ∧
        image.executed = machine.executed ∧
        image.counter = machine.counter ∧
        image.input.position = machine.input.position ∧
        image.output = machine.output ∧
        image.tape.length = machine.tape.length ∧
        image.head.toInt = -machine.head.toInt ∧
        image.tape.bits = machine.tape.bits.reverse ∧
        image.pointer.toInt = machine.tape.length.toInt - 1 - machine.pointer.toInt) ∧
      ∀ steps, interpret steps (mirror program) input = interpret steps program input := by
  obtain ⟨jumps, accepted⟩ := (JumpTable.ofProgram_isOk_iff program).mpr balanced
  have acceptedToo := (JumpTable.ofProgram_mirror program).trans accepted
  refine ⟨_, _, load_of_accepted accepted input, load_of_accepted acceptedToo input, ?_,
    fun steps => interpret_mirror steps program input⟩
  intro steps few
  obtain ⟨machine, image, proceeded, otherProceeded, age, age_le, mirrors⟩ :=
    exists_mirrors_of_accepted accepted input steps
  have contents := mirrors.stores.contents_eq
  have young : age < 2 ^ 62 := by omega
  have opposed := mirrors.stores.opposed young
  have head : image.head = -machine.head := mirrors.stores.head_eq
  refine ⟨machine, image, proceeded, otherProceeded, mirrors.executed_eq, mirrors.counter_eq,
    congrArg (fun contents : Contents => contents.input.position) contents,
    congrArg Contents.output contents, ?_, ?_, ?_, ?_⟩
  · exact opposed.length_eq young
  · rw [head]
    exact opposed.toInt_neg_head young
  · exact Tape.Opposed.bits_eq mirrors.stores.cell_neg opposed young
  · rw [pointer, head]
    exact opposed.toInt_index young

/-- A program that grows its tape to the left, and its mirror image. -/
theorem mirror_runs_alike_to_the_right :
    ∃ other image, load (text ">+>,[<]") [.input [1]] = .ok other ∧
      other.proceed 10 = .ok image ∧ image.counter = 7 ∧
      image.tape.bits = [false, true, true] ∧ image.head.toInt = 0 ∧ image.pointer.toInt = 0 := by
  obtain ⟨first, other, loaded, loadedToo, alike, -⟩ :=
    mirror_runs_alike (show Balanced (text "<+<,[>]") by decide) [1]
  obtain ⟨machine, image, proceeded, otherProceeded, -, counter, -, -, -, head, bits, pointer⟩ :=
    alike 10 (by decide)
  obtain ⟨known, knownProceeded, shown⟩ : ∃ known, first.proceed 10 = .ok known ∧
      known.counter = 7 ∧ known.tape.bits = [true, true, false] ∧ known.head = 0 ∧
      known.tape.length = 3 ∧ known.pointer = 2 := by
    obtain rfl := Except.ok.inj loaded
    exact ⟨_, rfl, by decide⟩
  rw [proceeded] at knownProceeded
  obtain rfl := Except.ok.inj knownProceeded
  obtain ⟨sameCounter, sameBits, sameHead, sameLength, samePointer⟩ := shown
  rw [sameBits] at bits
  rw [sameHead] at head
  rw [sameLength, samePointer] at pointer
  exact ⟨other, image, loadedToo, otherProceeded, counter.trans sameCounter, bits, head, pointer⟩

end Machine
end BitTape
