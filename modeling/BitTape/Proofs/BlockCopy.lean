import BitTape.Echo
import BitTape.Proofs.Packing
import BitTape.Proofs.Safety
import BitTape.Proofs.Scan
import BitTape.Proofs.StructuredRun

/-!
# What the block copy program computes

The program consists of two loops of the same form.  Each round loads a block and tests it by
counting it down: a borrow that runs through the whole block clears the marker behind it.  If the
marker stands, the round counts the block up again and goes on.  The first loop leaves the blocks it
has read on the left of the head, the last one nearest, like a stack; the second one takes them off
and writes them.
-/

namespace BitTape

/-- The blank tape of a machine that has just been loaded. -/
def Zipper.fresh (input : Bytes) : Zipper :=
  ⟨[], false, [], 0, .ofBytes input, []⟩

theorem Zipper.exists_run_of_executes {program input : Bytes} {tree : Tree} {after : Zipper}
    (spelled : tree.flatten = program) (execution : tree.Executes (Zipper.fresh input) after)
    (short : after.length < 2 ^ 63 - 1) :
    ∃ machine final steps, Machine.load program [.input input] = .ok machine ∧
      machine.run steps = some (.ok final) ∧ after.Shows final.store := by
  have balanced : Balanced program := (JumpTable.ofProgram_isOk_iff program).mp
    ⟨_, JumpTable.ofProgram_eq_ok_iff.mpr ⟨tree, spelled, rfl⟩⟩
  obtain ⟨jumps, loaded, sound⟩ := Machine.load_of_balanced balanced input
  have shows : (Zipper.fresh input).Shows
      { Machine.fresh program jumps with input := .ofBytes input }.store :=
    ⟨ListTape.shows_blank, rfl, rfl, rfl⟩
  obtain ⟨store, executed, shown⟩ := shows.executes execution short
  have left : 0 ≤ Tape.blank.leftExtent := by decide
  have right : 0 ≤ Tape.blank.rightExtent := by decide
  obtain ⟨steps, final, ended, rfl⟩ :=
    (Store.view.run_eq_ok_iff_executes sound.accepted spelled rfl rfl rfl
      (Store.look_look_of_nonneg left right) store).mpr executed
  exact ⟨_, final, steps, loaded, ended, shown⟩

namespace Echo

open BitTape.Tree BitTape.Zipper

/-! ## The parts of the program -/

/-- Read a byte into eight new cells, set the marker behind them and return to the first one. -/
def fetch : Tree :=
  line ((List.replicate 8 [.right, .read]).flatten ++ [.right, .flip] ++ List.replicate 8 .left)

/-- Count a block down and stop on the cell before it. -/
def lower : Tree :=
  line [.flip] ++ loop (line [.right, .flip]) nil ++ line [.left] ++ loop (line [.left]) nil

/-- Count a block up and stop on the cell before it. -/
def raise : Tree :=
  loop (line [.right]) nil ++ line [.flip, .left] ++ loop (line [.flip, .left]) nil

/-- From the cell before a block to its marker. -/
def skip : Tree :=
  line (List.replicate 9 .right)

/-- Count a block down and stop on its marker. -/
def test : Tree :=
  lower ++ skip

/-- Change a marker and go to the first cell of its block. -/
def mark : Tree :=
  line (.flip :: List.replicate 8 .left)

/-- Write the cells of a block and return. -/
def emit : Tree :=
  line ((List.replicate 8 [.right, .write]).flatten ++ List.replicate 8 .left)

/-- Clear a block of ones and stop on the cell before it. -/
def erase : Tree :=
  line [.left] ++ loop (line [.flip, .left]) nil

/-- The rounds after a test: a block that is not zero is counted up, and the next one is tested. -/
def again (load next : Tree) : Tree :=
  loop (mark ++ raise ++ next ++ (load ++ test)) erase

/-- The program as a tree. -/
def copier : Tree :=
  fetch ++ test ++ again fetch skip ++ (mark ++ test ++ again mark emit)

theorem flatten_copier : copier.flatten = program := by
  decide +kernel

/-! ## Counting down and up -/

section Blocks

variable {left right rest : List Bool} {grown more : Nat} {input : InputBits} {output : List Bool}

/-- The cell before the head is zero: it is the next one on the left, or a new one. -/
inductive Guard : List Bool → Nat → List Bool → Nat → Prop where
  | cell (left : List Bool) (grown : Nat) : Guard (false :: left) grown left grown
  | edge (grown : Nat) : Guard [] grown [] (grown + 1)

theorem Guard.headD_eq (guard : Guard left grown rest more) : left.headD false = false := by
  cases guard <;> rfl

theorem Guard.before_eq (guard : Guard left grown rest more) :
    before left right grown input output = ⟨rest, false, right, more, input, output⟩ := by
  cases guard <;> rfl

/-- Counting down borrows from the first one. -/
theorem lower_executes (guard : Guard left grown rest more) (count : Nat) :
    lower.Executes (onto left (List.replicate count false ++ true :: right) grown input output)
      ⟨rest, false, List.replicate count true ++ false :: right, more, input, output⟩ := by
  have borrowed : (line [.flip] ++ loop (line [.right, .flip]) nil).Executes
      (onto left (List.replicate count false ++ true :: right) grown input output)
      ⟨List.replicate count true ++ left, false, right, grown, input, output⟩ := by
    cases count with
    | zero => exact (line_executes [.flip] _).seq (.leave rfl (.nil _))
    | succ count =>
        refine (line_executes [.flip] _).seq (scan_right (fun left cell right => ?_) count)
        cases cell <;> exact line_executes [.right, .flip] _
  rw [← guard.before_eq]
  exact (borrowed.seq (line_executes [.left] _)).seq
    (scan_left (fun _ _ _ => line_executes [.left] _) guard.headD_eq count)

/-- Counting up carries into the first zero. -/
theorem raise_executes (guard : Guard left grown rest more) (count : Nat) :
    raise.Executes (onto left (List.replicate count true ++ false :: right) grown input output)
      ⟨rest, false, List.replicate count false ++ true :: right, more, input, output⟩ := by
  have carried : (loop (line [.right]) nil).Executes
      (onto left (List.replicate count true ++ false :: right) grown input output)
      ⟨List.replicate count true ++ left, false, right, grown, input, output⟩ := by
    cases count with
    | zero => exact .leave rfl (.nil _)
    | succ count =>
        refine scan_right (fun left cell right => ?_) count
        cases cell <;> exact line_executes [.right] _
  rw [← guard.before_eq]
  exact (carried.seq (line_executes [.flip, .left] _)).seq
    (scan_left (fun _ _ _ => line_executes [.flip, .left] _) guard.headD_eq count)

/-- Clearing a block of ones. -/
theorem erase_executes (guard : Guard left grown rest more) (focus : Bool) (count : Nat) :
    erase.Executes
      (⟨List.replicate count true ++ left, focus, right, grown, input, output⟩ : Zipper)
      ⟨rest, false, List.replicate count false ++ focus :: right, more, input, output⟩ := by
  rw [← guard.before_eq]
  exact (line_executes [.left] _).seq
    (scan_left (fun _ _ _ => line_executes [.flip, .left] _) guard.headD_eq count)

theorem skip_executes {block : List Bool} (full : block.length = 8) (focus marker : Bool) :
    skip.Executes (⟨left, focus, block ++ marker :: right, grown, input, output⟩ : Zipper)
      ⟨block.reverse ++ focus :: left, marker, right, grown, input, output⟩ := by
  have marched := @march_right left right grown input output (block ++ [marker]) focus
  rw [List.length_append, full, List.reverse_append, List.append_assoc] at marched
  exact marched

theorem mark_executes {block : List Bool} (full : block.length = 8) (marker : Bool) :
    mark.Executes ⟨block.reverse ++ left, marker, right, grown, input, output⟩
      (onto left (block ++ (!marker) :: right) grown input output) := by
  cases block with
  | nil => cases full
  | cons cell block =>
      have marched := @march_left left right grown input output ((!marker) :: block.reverse) cell
      have count : ((!marker) :: block.reverse).length = 8 := by simpa using full
      rw [count, List.reverse_cons, List.reverse_reverse, List.append_assoc] at marched
      rw [List.reverse_cons, List.append_assoc]
      exact .act marched

theorem emit_executes {block : List Bool} (full : block.length = 8) (focus : Bool) :
    emit.Executes (⟨left, focus, block ++ right, grown, input, output⟩ : Zipper)
      ⟨left, focus, block ++ right, grown, input, output ++ block⟩ := by
  have written := @write_right left right grown input output block focus
  have marched := @march_left left right grown input (output ++ block) block.reverse focus
  rw [full] at written
  rw [List.length_reverse, full, List.reverse_reverse] at marched
  exact written.seq marched

theorem fetch_executes (focus : Bool) :
    fetch.Executes ⟨left, focus, [], grown, input, output⟩
      (onto (focus :: left) ((input.take 8).1 ++ [true]) grown (input.take 8).2 output) :=
  line_executes _ _

/-! ## Rounds -/

variable {load next : Tree} {start middle final : Zipper}

/-- Rounds that begin with loading a block in `start` end in `final`. -/
def Ends (load next : Tree) (start final : Zipper) : Prop :=
  ∃ middle, (load ++ test).Executes start middle ∧ (again load next).Executes middle final

theorem Ends.executes (ends : Ends load next start final) :
    (load ++ test ++ again load next).Executes start final := by
  obtain ⟨middle, tested, done⟩ := ends
  exact tested.seq done

/-- A zero block ends the rounds: the borrow clears its marker. -/
theorem ends_of_zero (guard : Guard left grown rest more)
    (loaded : load.Executes start
      (onto left (List.replicate 8 false ++ true :: right) grown input output)) :
    Ends load next start ⟨rest, false, List.replicate 9 false ++ right, more, input, output⟩ := by
  have skipped : skip.Executes
      (⟨rest, false, List.replicate 8 true ++ false :: right, more, input, output⟩ : Zipper)
      ⟨List.replicate 8 true ++ false :: rest, false, right, more, input, output⟩ :=
    skip_executes rfl false false
  have erased := @erase_executes _ right rest _ more input output (.cell rest more) false 8
  exact ⟨_, loaded.seq ((lower_executes guard 8).seq skipped), .leave rfl erased⟩

/-- A block that is not zero keeps its marker, and counting up restores it. -/
theorem ends_of_nonzero {byte : UInt8} (nonzero : byte ≠ 0)
    (loaded : load.Executes start
      (onto (false :: left) (bitsOfByte byte ++ true :: right) grown input output))
    (goesOn : next.Executes ⟨left, false, bitsOfByte byte ++ false :: right, grown, input, output⟩
      middle)
    (ends : Ends load next middle final) : Ends load next start final := by
  obtain ⟨count, high, split⟩ := exists_first_one nonzero
  have full := length_bitsOfByte byte
  rw [split] at full loaded goesOn
  have loweredFull : (List.replicate count true ++ false :: high).length = 8 := by simpa using full
  have guard := Guard.cell left grown
  have tested : test.Executes
      (onto (false :: left) (List.replicate count false ++ true :: high ++ true :: right) grown
        input output)
      ⟨(List.replicate count true ++ false :: high).reverse ++ false :: left, true, right, grown,
        input, output⟩ := by
    have skipped := @skip_executes left right grown input output _ loweredFull false true
    rw [List.append_assoc] at skipped ⊢
    exact (lower_executes guard count).seq skipped
  have restored : (mark ++ raise).Executes
      (⟨(List.replicate count true ++ false :: high).reverse ++ false :: left, true, right, grown,
        input, output⟩ : Zipper)
      ⟨left, false, List.replicate count false ++ true :: high ++ false :: right, grown, input,
        output⟩ := by
    refine (mark_executes loweredFull true).seq ?_
    rw [List.append_assoc, List.append_assoc]
    exact raise_executes guard count
  obtain ⟨last, retested, done⟩ := ends
  exact ⟨_, loaded.seq tested, .again rfl ((restored.seq goesOn).seq retested) done⟩

end Blocks

/-! ## The two loops -/

/-- The bytes before the first zero. -/
def payload (bytes : Bytes) : Bytes :=
  bytes.takeWhile (· != 0)

theorem payload_cons {byte : UInt8} (nonzero : byte ≠ 0) (bytes : Bytes) :
    payload (byte :: bytes) = byte :: payload bytes := by
  simp [payload, nonzero]

theorem ne_zero_of_mem_payload {byte : UInt8} {bytes : Bytes} (member : byte ∈ payload bytes) :
    byte ≠ 0 := by
  simpa using List.all_eq_true.mp List.all_takeWhile byte member

theorem length_payload_le (bytes : Bytes) : (payload bytes).length ≤ bytes.length :=
  (List.takeWhile_sublist _).length_le

/-- Blocks on the left of the head, the nearest first, each behind a cleared marker. -/
def trail : Bytes → List Bool
  | [] => []
  | byte :: stack => (bitsOfByte byte).reverse ++ false :: trail stack

/-- The first loop reads the bytes before the first zero and leaves them on the left. -/
theorem gather_ends (bytes stack : Bytes) (position grown : Nat) (output : List Bool) :
    Ends fetch skip ⟨trail stack, false, [], grown, ⟨position, pack bytes⟩, output⟩
      ⟨trail ((payload bytes).reverse ++ stack), false, List.replicate 9 false, grown,
        ⟨position + 8 * min ((payload bytes).length + 1) bytes.length,
          pack (bytes.drop ((payload bytes).length + 1))⟩, output⟩ := by
  induction bytes generalizing stack position with
  | nil =>
      have loaded := @fetch_executes (trail stack) grown ⟨position, []⟩ output false
      rw [InputBits.take_nil] at loaded
      exact ends_of_zero (.cell ..) loaded
  | cons byte bytes ih =>
      have loaded :=
        @fetch_executes (trail stack) grown ⟨position, pack (byte :: bytes)⟩ output false
      rw [InputBits.take_pack_cons] at loaded
      by_cases zero : byte = 0
      · subst zero
        have counted : min ((payload (0 :: bytes)).length + 1) (0 :: bytes).length = 1 := by
          simp [payload]
        rw [counted]
        exact ends_of_zero (.cell ..) loaded
      · have counted : position + 8 * min ((payload bytes).length + 1 + 1) (bytes.length + 1) =
            position + 8 + 8 * min ((payload bytes).length + 1) bytes.length := by omega
        rw [payload_cons zero, List.reverse_cons, List.append_assoc, List.length_cons,
          List.length_cons, counted]
        exact ends_of_nonzero zero loaded (skip_executes (length_bitsOfByte byte) false false)
          (ih (byte :: stack) (position + 8))

/-- Blocks on the right of the head, after those of a stack have been moved over one by one. -/
def unwind : (stack : Bytes) → (right : List Bool) → List Bool
  | [], right => right
  | byte :: stack, right => unwind stack (bitsOfByte byte ++ false :: right)

theorem length_unwind (stack : Bytes) (right : List Bool) :
    (unwind stack right).length = 9 * stack.length + right.length := by
  induction stack generalizing right with
  | nil => simp [unwind]
  | cons byte stack ih =>
      rw [unwind, ih, List.length_append, length_bitsOfByte, List.length_cons, List.length_cons]
      omega

/-- The second loop writes the blocks on the left, the nearest first, and moves over them. -/
theorem scatter_ends {stack : Bytes} (nonzero : ∀ byte ∈ stack, byte ≠ 0) (right : List Bool)
    (grown : Nat) (input : InputBits) (output : List Bool) :
    Ends mark emit ⟨trail stack, false, right, grown, input, output⟩
      ⟨[], false, List.replicate 9 false ++ unwind stack right, grown + 9, input,
        output ++ pack stack⟩ := by
  induction stack generalizing right output with
  | nil =>
      rw [pack_nil, List.append_nil]
      exact ends_of_zero (.edge (grown + 8)) (line_executes (.flip :: List.replicate 8 .left) _)
  | cons byte stack ih =>
      rw [pack_cons, ← List.append_assoc]
      exact ends_of_nonzero (nonzero byte (.head _))
        (mark_executes (length_bitsOfByte byte) false)
        (emit_executes (length_bitsOfByte byte) false)
        (ih (fun byte member => nonzero byte (.tail _ member)) ..)

/-- The state in which the program ends. -/
def copied (bytes : Bytes) : Zipper where
  left := []
  focus := false
  right := List.replicate 9 false ++ unwind (payload bytes).reverse (List.replicate 9 false)
  grown := 9
  input :=
    { position := 8 * min ((payload bytes).length + 1) bytes.length
      remaining := pack (bytes.drop ((payload bytes).length + 1)) }
  output := pack (payload bytes).reverse

theorem length_copied (bytes : Bytes) :
    (copied bytes).length = 9 * (payload bytes).length + 19 := by
  simp only [copied, Zipper.length, List.length_nil, List.length_append, List.length_replicate,
    length_unwind, List.length_reverse]
  omega

theorem copier_executes (bytes : Bytes) :
    copier.Executes (Zipper.fresh bytes) (copied bytes) := by
  have gathered := (gather_ends bytes [] 0 0 []).executes
  have nonzero : ∀ byte ∈ (payload bytes).reverse ++ [], byte ≠ 0 := fun byte member =>
    ne_zero_of_mem_payload (by simpa using member)
  have scattered := (scatter_ends nonzero (List.replicate 9 false) 0
    (copied bytes).input []).executes
  rw [List.append_nil, Nat.zero_add] at gathered
  rw [List.append_nil] at scattered
  exact gathered.seq scattered

/-- On every input that fits on the tape the program writes the bytes before the first zero, the
last one first, and leaves the head on the first cell. -/
theorem run_reverses_payload (input : Bytes) (short : input.length < 2 ^ 59) :
    ∃ machine final steps, Machine.load program [.input input] = .ok machine ∧
      (∀ limit, steps ≤ limit →
        machine.run limit = some (.ok final) ∧
          run limit input = some (.ok (input.takeWhile (· != 0)).reverse)) ∧
      final.head = -9 ∧ final.pointer = 0 ∧
      final.tape.length.toInt = 9 * (input.takeWhile (· != 0)).length + 19 ∧
      final.input.position = 8 * min ((input.takeWhile (· != 0)).length + 1) input.length := by
  have lengthEq := length_copied input
  have fits : (copied input).length < 2 ^ 63 - 1 := by
    have shorter := length_payload_le input
    omega
  obtain ⟨machine, final, steps, loaded, ended, shown⟩ :=
    exists_run_of_executes flatten_copier (copier_executes input) fits
  have shownTape : (copied input).list.Shows final.tape final.head := shown.tape_shows
  rw [← length_list] at lengthEq fits
  refine ⟨machine, final, steps, loaded, fun limit enough => ?_, ?_, ?_, ?_, ?_⟩
  · obtain ⟨more, rfl⟩ := Nat.exists_eq_add_of_le enough
    have endedLater : machine.run (steps + more) = some (.ok final) :=
      Machine.runFor_add ended more
    have written : final.outputBytes = (payload input).reverse :=
      (congrArg unpack shown.output_eq).trans (unpack_pack _)
    refine ⟨endedLater, ?_⟩
    rw [run, interpret_eq_ok loaded endedLater, written]
    rfl
  · exact Int64.toInt_inj.mp shown.head_eq
  · exact Int64.toInt_inj.mp (shownTape.toInt_index (by omega))
  · rw [shownTape.toInt_length (by omega), lengthEq]
    rfl
  · exact congrArg InputBits.position shown.input_eq

/-- Two bytes before a zero. -/
theorem run_reverses_two_bytes :
    ∃ machine final steps, Machine.load program [.input [104, 105, 0, 33]] = .ok machine ∧
      machine.run steps = some (.ok final) ∧
      run steps [104, 105, 0, 33] = some (.ok [105, 104]) ∧ final.head = -9 ∧
      final.tape.length.toInt = 37 ∧ final.input.position = 24 := by
  obtain ⟨machine, final, steps, loaded, ended, head, -, length, position⟩ :=
    run_reverses_payload [104, 105, 0, 33] (by decide)
  obtain ⟨answered, written⟩ := ended steps (Nat.le_refl steps)
  exact ⟨machine, final, steps, loaded, answered, written, head, length, position⟩

end Echo
end BitTape
