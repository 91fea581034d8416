import BitTape.Machine.Report
import BitTape.Proofs.Accesses
import BitTape.Proofs.CommandRun
import BitTape.Proofs.Crashes
import BitTape.Proofs.Listings

/-!
# Reports can be read back

Whatever is done with a loaded machine, its head stays on the visited part of its tape, as long as
the positions that are addressed lie close together.  So a report can always show the cell under the
head between the cells before it and the cells behind it.  A report consists of five lines, and each
number and each bit in them can be read back.
-/

namespace BitTape

/-! ## Machines in use -/

namespace Machine

/-- The states into which the machine of a program can be brought, with the positions that its tape
was addressed at. -/
inductive Attained (program : Bytes) : (positions : Set Int) → Machine → Prop where
  | load {inputs : List Bytes} {machine : Machine} :
      load program (inputs.map Setting.input) = .ok machine → Attained program {0} machine
  | restart {positions : Set Int} {machine : Machine} : Attained program positions machine →
      Attained program positions { machine with executed := 0 }
  | step {positions : Set Int} {before after : Machine} : Attained program positions before →
      before.Step after → Attained program (insert after.head.toInt positions) after
  | crash {positions : Set Int} {machine : Machine} {crash : Crash} :
      Attained program positions machine → machine.isHalted = false →
        machine.step = .error crash → Attained program positions crash.machine
  | counter {positions : Set Int} {machine : Machine} (counter : Int) :
      Attained program positions machine → Attained program positions { machine with counter }
  | input {positions : Set Int} {machine : Machine} (inputs : List Bytes) :
      Attained program positions machine →
        Attained program positions (machine.configure (inputs.map Setting.input)).1
  | access {positions : Set Int} {machine : Machine} (access : Access) :
      Attained program positions machine →
        Attained program (insert access.position.toInt positions)
          { machine with tape := access.apply machine.tape }

/-- The tape reaches over the addressed positions, one of which is that of the head. -/
theorem Attained.covers {program : Bytes} {positions : Set Int} {machine : Machine}
    (attained : machine.Attained program positions) (close : Close positions) :
    machine.tape.Covers positions ∧ machine.head.toInt ∈ positions := by
  induction attained with
  | load loaded =>
      obtain ⟨jumps, input, -, rfl⟩ := load_inputs loaded
      exact ⟨Tape.covers_blank, rfl⟩
  | restart _ ih => exact ih close
  | step _ step ih =>
      obtain ⟨covers, head_mem⟩ := ih (close.mono (Set.subset_insert _ _))
      exact ⟨step.covers covers head_mem close, Set.mem_insert _ _⟩
  | crash _ running failed ih =>
      obtain ⟨covers, head_mem⟩ := ih close
      rcases step_eq_error_cases running failed with ⟨-, rfl⟩ | ⟨bracket, -, -, -, rfl⟩
      · exact ⟨covers, head_mem⟩
      · have known := Set.insert_eq_of_mem head_mem
        have visited := covers.visit (known.symm ▸ close)
        rw [known] at visited
        exact ⟨visited, head_mem⟩
  | counter _ _ ih => exact ih close
  | @input _ machine inputs _ ih =>
      obtain ⟨input, configured⟩ := configure_inputs machine inputs
      rw [configured]
      exact ih close
  | access access _ ih =>
      obtain ⟨covers, head_mem⟩ := ih (close.mono (Set.subset_insert _ _))
      exact ⟨access.covers_apply covers close, Set.mem_insert_of_mem _ head_mem⟩

theorem Attained.pointer_bounds {program : Bytes} {positions : Set Int} {machine : Machine}
    (attained : machine.Attained program positions) (close : Close positions) :
    0 ≤ machine.pointer.toInt ∧ machine.pointer.toInt < machine.tape.bits.length := by
  obtain ⟨covers, head_mem⟩ := attained.covers close
  have low := covers.least.2 head_mem
  have high := covers.greatest.2 head_mem
  have pointer := covers.toInt_index low (by omega) close
  have length := covers.length_bits
  rw [Machine.pointer]
  omega

end Machine

/-! ## Numbers and bits -/

theorem notMem_signedDecimal {byte : UInt8} (small : byte < ascii '0') (notMinus : byte ≠ ascii '-')
    (number : Int) : byte ∉ signedDecimal number := by
  cases number with
  | ofNat number => exact notMem_decimal small number
  | negSucc number =>
      rw [signedDecimal, List.mem_cons, not_or]
      exact ⟨notMinus, notMem_decimal small _⟩

theorem signedDecimal_injective {first second : Int}
    (same : signedDecimal first = signedDecimal second) : first = second := by
  have unsigned (number : Nat) : ascii '-' ∉ decimal number := notMem_decimal (by decide) number
  cases first with
  | ofNat first =>
      cases second with
      | ofNat second => exact congrArg Int.ofNat (decimal_injective same)
      | negSucc second =>
          rw [signedDecimal, signedDecimal] at same
          exact (unsigned first (same ▸ List.mem_cons_self)).elim
  | negSucc first =>
      cases second with
      | ofNat second =>
          rw [signedDecimal, signedDecimal] at same
          exact (unsigned second (same ▸ List.mem_cons_self)).elim
      | negSucc second =>
          obtain ⟨-, digits⟩ := List.cons.inj same
          rw [Nat.succ.inj (decimal_injective digits)]

theorem bitDigit_injective : Function.Injective bitDigit := by
  intro first second same
  cases first <;> cases second <;> first | rfl | exact absurd same (by decide)

theorem notMem_bitDigits {byte : UInt8} (notZero : byte ≠ ascii '0') (notOne : byte ≠ ascii '1')
    (bits : List Bool) : byte ∉ bits.map bitDigit := by
  intro present
  obtain ⟨bit, -, rfl⟩ := List.mem_map.mp present
  cases bit with
  | false => exact notZero rfl
  | true => exact notOne rfl

/-! ## Lines -/

/-- Lines that end with line feeds can be told apart. -/
theorem splitOn_lines {lines : List Bytes} (unbroken : ∀ line ∈ lines, ascii '\n' ∉ line) :
    (lines.flatMap (· ++ [ascii '\n'])).splitOn (ascii '\n') = lines ++ [[]] := by
  induction lines with
  | nil => rfl
  | cons line lines ih =>
      rw [List.flatMap_cons, List.append_assoc, List.singleton_append,
        List.splitOn_append_cons_self_of_not_mem (unbroken line List.mem_cons_self),
        ih fun other present => unbroken other (List.mem_cons_of_mem _ present), List.cons_append]

namespace Machine

/-- The line with the counters of a machine. -/
def counterLine (machine : Machine) : Bytes :=
  text "pc: " ++ signedDecimal machine.counter ++ text "/" ++ decimal machine.code.size ++
    text ", instructions: " ++ decimal machine.executed ++ text ", input: " ++
    decimal machine.input.position ++ text "/" ++ decimal machine.input.size ++ text " bits"

/-- The line with the size of the tape and the place of the head. -/
def extentLine (machine : Machine) : Bytes :=
  text "tape: " ++ decimal machine.tape.bits.length ++ text " cells, pointer: " ++
    signedDecimal machine.pointer.toInt

/-- The line with the cells of the tape, of which the one under the head stands in brackets. -/
def tapeLine (machine : Machine) : Bytes :=
  (machine.tape.bits.take machine.pointer.toInt.toNat).map bitDigit ++ ascii '[' ::
    (((machine.tape.bits.drop machine.pointer.toInt.toNat).take 1).map bitDigit ++ ascii ']' ::
      (machine.tape.bits.drop (machine.pointer.toInt.toNat + 1)).map bitDigit)

/-- The line with the size of the output. -/
def outputLine (machine : Machine) : Bytes :=
  text "output: " ++ decimal machine.output.size ++ text " bits"

/-- The lines of a report. -/
def reportLines (machine : Machine) : List Bytes :=
  [machine.counterLine, machine.extentLine, machine.tapeLine, machine.outputLine,
    machine.output.toList.map bitDigit]

theorem flatten_report (machine : Machine) :
    machine.report.flatten = machine.reportLines.flatMap (· ++ [ascii '\n']) := by
  have counterEnd : text " bits\n" = text " bits" ++ [ascii '\n'] := rfl
  have lineFeed : text "\n" = [ascii '\n'] := rfl
  have outputStart : text "\noutput: " = ascii '\n' :: text "output: " := rfl
  have opening : text "[" = [ascii '['] := rfl
  have closing : text "]" = [ascii ']'] := rfl
  simp only [report, reportLines, counterLine, extentLine, tapeLine, outputLine, counterEnd,
    lineFeed, outputStart, opening, closing, ← Int64.toNat_toInt, flatten_bitChunks,
    List.flatten_append, List.flatten_cons, List.flatten_nil, List.flatMap_cons, List.flatMap_nil,
    List.append_assoc, List.cons_append, List.nil_append, List.append_nil]

theorem unbroken_reportLines (machine : Machine) :
    ∀ line ∈ machine.reportLines, ascii '\n' ∉ line := by
  have inNumber (number : Nat) : ascii '\n' ∉ decimal number := notMem_decimal (by decide) number
  have inSigned (number : Int) : ascii '\n' ∉ signedDecimal number :=
    notMem_signedDecimal (by decide) (by decide) number
  have inBits (bits : List Bool) : ascii '\n' ∉ bits.map bitDigit :=
    notMem_bitDigits (by decide) (by decide) bits
  simp only [reportLines, counterLine, extentLine, tapeLine, outputLine, List.mem_cons,
    List.not_mem_nil, or_false, forall_eq_or_imp, forall_eq, List.mem_append, not_or, inNumber,
    inSigned, inBits, not_false_eq_true, and_true, true_and]
  decide

theorem splitOn_report (machine : Machine) :
    machine.report.flatten.splitOn (ascii '\n') = machine.reportLines ++ [[]] := by
  rw [flatten_report, splitOn_lines machine.unbroken_reportLines]

/-! ## What the lines tell -/

/-- What a report tells about a machine. -/
structure Summary where
  counter : Int
  codeSize : Nat
  executed : Nat
  inputPosition : Nat
  inputSize : Nat
  cells : List Bool
  pointer : Int64
  output : List Bool
  deriving DecidableEq

def summary (machine : Machine) : Summary :=
  { counter := machine.counter
    codeSize := machine.code.size
    executed := machine.executed
    inputPosition := machine.input.position
    inputSize := machine.input.size
    cells := machine.tape.bits
    pointer := machine.pointer
    output := machine.output.toList }

variable {machine other : Machine}

theorem eq_of_counterLine (same : machine.counterLine = other.counterLine) :
    machine.counter = other.counter ∧ machine.code.size = other.code.size ∧
      machine.executed = other.executed ∧ machine.input.position = other.input.position ∧
      machine.input.size = other.input.size := by
  have slash : text "/" = [ascii '/'] := rfl
  have instructions : text ", instructions: " = ascii ',' :: text " instructions: " := rfl
  have input : text ", input: " = ascii ',' :: text " input: " := rfl
  have bits : text " bits" = ascii ' ' :: text "bits" := rfl
  have inNumber {byte : UInt8} (small : byte < ascii '0') (number : Nat) : byte ∉ decimal number :=
    notMem_decimal small number
  have inSigned (number : Int) : ascii '/' ∉ signedDecimal number :=
    notMem_signedDecimal (by decide) (by decide) number
  simp only [counterLine, slash, instructions, input, bits, List.append_assoc, List.cons_append,
    List.nil_append] at same
  obtain ⟨counter, same⟩ :=
    eq_of_append_cons_eq (inSigned _) (inSigned _) (List.append_cancel_left same)
  obtain ⟨size, same⟩ :=
    eq_of_append_cons_eq (inNumber (by decide) _) (inNumber (by decide) _) same
  obtain ⟨executed, same⟩ := eq_of_append_cons_eq (inNumber (by decide) _) (inNumber (by decide) _)
    (List.append_cancel_left same)
  obtain ⟨position, same⟩ := eq_of_append_cons_eq (inNumber (by decide) _) (inNumber (by decide) _)
    (List.append_cancel_left same)
  obtain ⟨inputSize, -⟩ :=
    eq_of_append_cons_eq (inNumber (by decide) _) (inNumber (by decide) _) same
  exact ⟨signedDecimal_injective counter, decimal_injective size, decimal_injective executed,
    decimal_injective position, decimal_injective inputSize⟩

theorem eq_of_extentLine (same : machine.extentLine = other.extentLine) :
    machine.pointer = other.pointer := by
  have cells : text " cells, pointer: " = ascii ' ' :: text "cells, pointer: " := rfl
  have inNumber (number : Nat) : ascii ' ' ∉ decimal number := notMem_decimal (by decide) number
  simp only [extentLine, cells, List.append_assoc, List.cons_append] at same
  obtain ⟨-, pointer⟩ :=
    eq_of_append_cons_eq (inNumber _) (inNumber _) (List.append_cancel_left same)
  exact Int64.toInt_inj.mp (signedDecimal_injective (List.append_cancel_left pointer))

/-- A byte other than the two brackets. -/
def notBracket (byte : UInt8) : Bool :=
  byte != ascii '[' && byte != ascii ']'

theorem filter_bitDigits (bits : List Bool) :
    (bits.map bitDigit).filter notBracket = bits.map bitDigit := by
  rw [List.filter_eq_self]
  intro digit present
  obtain ⟨bit, -, rfl⟩ := List.mem_map.mp present
  cases bit <;> decide

/-- Without its brackets the tape line shows the cells. -/
theorem filter_tapeLine (machine : Machine) :
    machine.tapeLine.filter notBracket = machine.tape.bits.map bitDigit := by
  have opening : notBracket (ascii '[') = false := by decide
  have closing : notBracket (ascii ']') = false := by decide
  rw [tapeLine, List.filter_append, List.filter_cons_of_neg (by simp [opening]),
    List.filter_append, List.filter_cons_of_neg (by simp [closing]), filter_bitDigits,
    filter_bitDigits, filter_bitDigits, ← List.map_append, ← List.map_append, ← List.drop_drop,
    List.take_append_drop, List.take_append_drop]

/-- A report tells apart machines that differ in what it shows. -/
theorem summary_eq_of_report (same : machine.report.flatten = other.report.flatten) :
    machine.summary = other.summary := by
  have lines := congrArg (List.splitOn (ascii '\n')) same
  rw [splitOn_report, splitOn_report, List.append_cancel_right_eq] at lines
  simp only [reportLines, List.cons.injEq, and_true] at lines
  obtain ⟨counters, extents, tapes, -, outputs⟩ := lines
  obtain ⟨counter, size, executed, position, inputSize⟩ := eq_of_counterLine counters
  have pointer := eq_of_extentLine extents
  have shown := congrArg (List.filter notBracket) tapes
  rw [filter_tapeLine, filter_tapeLine] at shown
  have cells := bitDigit_injective.list_map shown
  have output := bitDigit_injective.list_map outputs
  simp only [summary, counter, size, executed, position, inputSize, pointer, cells, output]

end Machine

/-! ## The cell under the head -/

/-- The part of a list from one index up to another, if the indices are in order and in range. -/
def slice? {α : Type} (list : List α) (start stop : Int) : Option (List α) :=
  if 0 ≤ start ∧ start ≤ stop ∧ stop ≤ list.length then
    some ((list.drop start.toNat).take (stop - start).toNat)
  else
    none

theorem exists_slices {α : Type} {list : List α} {index : Int} (nonneg : 0 ≤ index)
    (inside : index < list.length) :
    ∃ element, slice? list 0 index = some (list.take index.toNat) ∧
      slice? list index (index + 1) = some [element] ∧
      slice? list (index + 1) list.length = some (list.drop (index.toNat + 1)) ∧
      (list.drop index.toNat).take 1 = [element] := by
  have inRange : index.toNat < list.length := by omega
  have one : (list.drop index.toNat).take 1 = [list[index.toNat]] := by
    rw [List.drop_eq_getElem_cons inRange]
    rfl
  have next : (index + 1 - index).toNat = 1 := by omega
  have behind : (index + 1).toNat = index.toNat + 1 := by omega
  refine ⟨list[index.toNat], ?_, ?_, ?_, one⟩
  · rw [slice?, if_pos (by omega)]
    simp
  · rw [slice?, if_pos (by omega), next, one]
  · rw [slice?, if_pos (by omega), behind, List.take_of_length_le]
    rw [List.length_drop]
    omega

/-- The digits of bits, one of which stands in brackets. -/
def bracketed (before : List Bool) (bit : Bool) (after : List Bool) : Bytes :=
  before.map bitDigit ++ ascii '[' :: bitDigit bit :: ascii ']' :: after.map bitDigit

theorem count_bracketed (before : List Bool) (bit : Bool) (after : List Bool) {bracket : UInt8}
    (isBracket : bracket = ascii '[' ∨ bracket = ascii ']') :
    (bracketed before bit after).count bracket = 1 := by
  have notZero : bracket ≠ ascii '0' := by rcases isBracket with rfl | rfl <;> decide
  have notOne : bracket ≠ ascii '1' := by rcases isBracket with rfl | rfl <;> decide
  have inDigits (bits : List Bool) : (bits.map bitDigit).count bracket = 0 :=
    List.count_eq_zero.mpr (notMem_bitDigits notZero notOne bits)
  have notDigit : bitDigit bit ≠ bracket := by
    cases bit with
    | false => exact notZero.symm
    | true => exact notOne.symm
  rw [bracketed, List.count_append, inDigits, Nat.zero_add]
  rcases isBracket with rfl | rfl
  · rw [List.count_cons_self, List.count_cons_of_ne notDigit, List.count_cons_of_ne (by decide),
      inDigits]
  · rw [List.count_cons_of_ne (by decide), List.count_cons_of_ne notDigit, List.count_cons_self,
      inDigits]

theorem takeWhile_bracketed (before : List Bool) (bit : Bool) (after : List Bool) :
    (bracketed before bit after).takeWhile (· != ascii '[') = before.map bitDigit := by
  have digits : ∀ digit ∈ before.map bitDigit, (digit != ascii '[') = true := by
    intro digit present
    rw [bne_iff_ne]
    rintro rfl
    exact notMem_bitDigits (by decide) (by decide) before present
  rw [bracketed, List.takeWhile_append_of_pos digits, List.takeWhile_cons_of_neg (by simp),
    List.append_nil]

namespace Machine

end Machine
end BitTape
