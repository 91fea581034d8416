import Mathlib.Data.List.Sort
import BitTape.Listing
import BitTape.Proofs.Devices
import BitTape.Proofs.Runs
import BitTape.Proofs.Words

/-!
# Listings

A listing has one line for every longest sequence of an instruction, in the order of the program.
Together these runs cover the instructions and nothing else, and each line can be read back, so a
listing tells which instruction stands at which position, and no more.
-/

namespace BitTape

/-! ## Longest sequences of an instruction -/

namespace Run

/-- A position of the program inside the run. -/
def Covers (run : Run) (place : Nat) : Prop :=
  run.start ≤ place ∧ place < run.stop

end Run

/-- A run that cannot be extended to either side. -/
@[mk_iff]
structure IsRun (program : Bytes) (run : Run) : Prop where
  positive : 1 ≤ run.length
  holds : ∀ place, run.Covers place → program[place]? = some run.instruction.symbol
  starts : ∀ place, place + 1 = run.start → program[place]? ≠ some run.instruction.symbol
  ends : program[run.stop]? ≠ some run.instruction.symbol

theorem Instruction.symbol_injective {first second : Instruction}
    (same : first.symbol = second.symbol) : first = second := by
  have found := congrArg ofByte? same
  rw [ofByte?_symbol, ofByte?_symbol] at found
  exact Option.some.inj found

namespace IsRun

variable {program : Bytes} {run other : Run}

theorem covers_start (isRun : IsRun program run) : run.Covers run.start :=
  ⟨Nat.le_refl _, Nat.lt_add_of_pos_right isRun.positive⟩

theorem start_le (isRun : IsRun program run) (isOther : IsRun program other)
    (same : run.instruction = other.instruction) {place : Nat} (covers : run.Covers place)
    (coversToo : other.Covers place) : other.start ≤ run.start := by
  obtain ⟨-, before⟩ := covers
  obtain ⟨behind, -⟩ := coversToo
  by_contra later
  have inside : run.Covers (other.start - 1) := by
    rw [Run.Covers]
    omega
  have held := isRun.holds _ inside
  rw [same] at held
  exact isOther.starts (other.start - 1) (by omega) held

theorem stop_le (isRun : IsRun program run) (isOther : IsRun program other)
    (same : run.instruction = other.instruction) {place : Nat} (covers : run.Covers place)
    (coversToo : other.Covers place) : run.stop ≤ other.stop := by
  obtain ⟨behind, -⟩ := covers
  obtain ⟨-, before⟩ := coversToo
  by_contra later
  have inside : run.Covers other.stop := by
    rw [Run.Covers]
    omega
  have held := isRun.holds _ inside
  rw [same] at held
  exact isOther.ends held

/-- Two runs that meet are the same. -/
theorem eq_of_covers (isRun : IsRun program run) (isOther : IsRun program other) {place : Nat}
    (covers : run.Covers place) (coversToo : other.Covers place) : run = other := by
  have held := isRun.holds place covers
  rw [isOther.holds place coversToo, Option.some.injEq] at held
  have same := Instruction.symbol_injective held.symm
  have start := Nat.le_antisymm (isOther.start_le isRun same.symm coversToo covers)
    (isRun.start_le isOther same covers coversToo)
  have stop := Nat.le_antisymm (isRun.stop_le isOther same covers coversToo)
    (isOther.stop_le isRun same.symm coversToo covers)
  rw [Run.stop, Run.stop, start] at stop
  obtain ⟨start, instruction, length⟩ := run
  obtain ⟨otherStart, otherInstruction, otherLength⟩ := other
  simp only [Run.mk.injEq]
  exact ⟨by assumption, by assumption, by simpa using stop⟩

end IsRun

/-! ## The run at or after a position -/

/-- There is no instruction from one position up to another. -/
def Idle (program : Bytes) (position stop : Nat) : Prop :=
  ∀ place byte, position ≤ place → place < stop → program[place]? = some byte →
    isInstruction byte = false

theorem idle_findIdx (program : Bytes) (position : Nat) :
    Idle program position (position + (program.drop position).findIdx isInstruction) := by
  intro place byte behind before present
  have inGap : place - position < (program.drop position).findIdx isInstruction := by omega
  have skipped := List.not_of_lt_findIdx inGap
  have here : (program.drop position)[place - position]? = some byte := by
    rw [List.getElem?_drop, Nat.add_sub_cancel' behind]
    exact present
  obtain ⟨_, same⟩ := List.getElem?_eq_some_iff.mp here
  rwa [same] at skipped

theorem getElem?_of_drop_eq {program behind : Bytes} {start length : Nat} {byte : UInt8}
    (here : program.drop start = List.replicate length byte ++ behind) :
    (∀ place, start ≤ place → place < start + length → program[place]? = some byte) ∧
      program[start + length]? = behind.head? := by
  constructor
  · intro place reached before
    have inside : place - start < length := by omega
    have found := congrArg (·[place - start]?) here
    simp only [List.getElem?_drop, Nat.add_sub_cancel' reached] at found
    rw [found, List.getElem?_append_left (by simpa using inside),
      List.getElem?_replicate_of_lt inside]
  · rw [← List.getElem?_drop, here, List.getElem?_append_right (by simp)]
    simp [List.head?_eq_getElem?]

/-- The run found from a position on is the next one, cut off only at that position. -/
theorem runAt?_cases (program : Bytes) (position : Nat) :
    (runAt? program position = none ∧ Idle program position program.length) ∨
      ∃ run : Run, runAt? program position = some run ∧ position ≤ run.start ∧
        Idle program position run.start ∧ 1 ≤ run.length ∧
        (∀ place, run.Covers place → program[place]? = some run.instruction.symbol) ∧
        program[run.stop]? ≠ some run.instruction.symbol := by
  have idle := idle_findIdx program position
  obtain ⟨-, starts⟩ := instructionRuns_drop_findIdx (program.drop position)
  cases remaining : (program.drop position).drop
      ((program.drop position).findIdx isInstruction) with
  | nil =>
      refine .inl ⟨by simp only [runAt?, remaining], ?_⟩
      intro place byte behind before
      have ended := List.drop_eq_nil_iff.mp remaining
      rw [List.length_drop] at ended
      exact idle place byte behind (by omega)
  | cons byte more =>
      rw [remaining] at starts
      obtain ⟨instruction, found⟩ := Option.isSome_iff_exists.mp (starts byte rfl)
      obtain rfl := Instruction.ofByte?_eq_some_iff.mp found
      obtain ⟨behind, split, ends⟩ := exists_replicate_append instruction.symbol more
      have here : program.drop (position + (program.drop position).findIdx isInstruction) =
          List.replicate (more.findIdx (· != instruction.symbol) + 1) instruction.symbol ++
            behind := by
        rw [← List.drop_drop, remaining, List.replicate_succ, List.cons_append, ← split]
      obtain ⟨holds, next⟩ := getElem?_of_drop_eq here
      let run : Run :=
        { start := position + (program.drop position).findIdx isInstruction, instruction
          length := more.findIdx (· != instruction.symbol) + 1 }
      refine .inr ⟨run, ?_, Nat.le_add_right _ _, idle, Nat.succ_pos _, ?_, ?_⟩
      · simp only [runAt?, remaining, found, run, Option.map_some]
      · exact fun place covers => holds place covers.1 covers.2
      · intro same
        exact ends instruction.symbol (next.symm.trans same) rfl

/-! ## Runs one after the other -/

/-- From a position on the runs are found one by one, each behind the one before. -/
inductive Lists (program : Bytes) : (position : Nat) → (found : List Run) → Prop where
  | stop {position : Nat} : runAt? program position = none → Lists program position []
  | line {position : Nat} {run : Run} {found : List Run} :
      runAt? program position = some run → Lists program run.stop found →
        Lists program position (run :: found)

/-- The runs of segments, of which the first starts at a position. -/
def placeRuns : (start : Nat) → List Segment → List Run
  | _, [] => []
  | start, segment :: rest =>
      (segment.instruction.toList.map fun instruction => ⟨start, instruction, segment.length⟩) ++
        placeRuns (start + segment.length) rest

theorem runs_eq_placeRuns (program : Bytes) : runs program = placeRuns 0 (segments program) := by
  have general {place : Nat × Array Run → Segment → Nat × Array Run}
      (places : ∀ start done segment, place (start, done) segment =
        (start + segment.length, done ++ (placeRuns start [segment]).toArray))
      (found : List Segment) (start : Nat) (done : Array Run) :
      (found.foldl place (start, done)).2.toList = done.toList ++ placeRuns start found := by
    induction found generalizing start done with
    | nil => simp [placeRuns]
    | cons segment rest ih =>
        rw [List.foldl_cons, places, ih]
        simp [placeRuns]
  refine general ?_ (segments program) 0 #[]
  intro start done segment
  obtain ⟨instruction, length⟩ := segment
  cases instruction <;> simp [placeRuns]

theorem segments_cons (byte : UInt8) (rest : Bytes) :
    segments (byte :: rest) =
      (Segment.cut byte rest).1 :: segments (rest.drop (Segment.cut byte rest).2) :=
  pieces_cons ..

theorem runAt?_of_drop_eq {program rest : Bytes} {position : Nat} {instruction : Instruction}
    (here : program.drop position = instruction.symbol :: rest) :
    runAt? program position =
      some ⟨position, instruction, rest.findIdx (· != instruction.symbol) + 1⟩ := by
  have isOne : isInstruction instruction.symbol = true := isInstruction_symbol instruction
  simp [runAt?, here, List.findIdx_cons, isOne, Instruction.ofByte?_symbol]

theorem runAt?_skip (program : Bytes) (position : Nat) :
    runAt? program (position + (program.drop position).findIdx isInstruction) =
      runAt? program position := by
  have idle : ((program.drop position).drop
      ((program.drop position).findIdx isInstruction)).findIdx isInstruction = 0 := by
    obtain ⟨-, starts⟩ := instructionRuns_drop_findIdx (program.drop position)
    cases remaining : (program.drop position).drop
        ((program.drop position).findIdx isInstruction) with
    | nil => rfl
    | cons byte more =>
        rw [remaining] at starts
        rw [List.findIdx_cons, starts byte rfl]
        rfl
  simp only [runAt?, ← List.drop_drop, idle, List.drop_zero, Nat.add_zero]

theorem Lists.congr {program : Bytes} {first second : Nat} {found : List Run}
    (lists : Lists program first found) (same : runAt? program second = runAt? program first) :
    Lists program second found := by
  cases lists with
  | stop none => exact .stop (same.trans none)
  | line here lists => exact .line (same.trans here) lists

/-- Looking for one run after the other comes to an end, and finds the runs of the program. -/
theorem lists_runs (program : Bytes) : Lists program 0 (runs program) := by
  suffices general : ∀ rest start, program.drop start = rest →
      Lists program start (placeRuns start (segments rest)) by
    rw [runs_eq_placeRuns]
    exact general program 0 rfl
  intro rest
  induction length_eq : rest.length using Nat.strongRecOn generalizing rest with
  | ind length ih =>
      intro start here
      cases rest with
      | nil => exact .stop (by simp [runAt?, here])
      | cons byte rest =>
          have shorter (count : Nat) : (rest.drop count).length < length := by
            rw [← length_eq, List.length_drop, List.length_cons]
            omega
          have later (count : Nat) : program.drop (start + (count + 1)) = rest.drop count := by
            rw [← List.drop_drop, here, List.drop_succ_cons]
          rw [segments_cons, placeRuns, Segment.cut]
          cases found : Instruction.ofByte? byte with
          | some instruction =>
              obtain rfl := Instruction.ofByte?_eq_some_iff.mp found
              exact .line (runAt?_of_drop_eq here) (ih _ (shorter _) _ rfl _ (later _))
          | none =>
              have isNone : isInstruction byte = false := by rw [isInstruction, found]; rfl
              have skipped := runAt?_skip program start
              rw [here, List.findIdx_cons, isNone, cond_false] at skipped
              exact (ih _ (shorter _) _ rfl _ (later _)).congr skipped.symm

namespace Lists

variable {program : Bytes} {position : Nat} {found : List Run}

theorem of_runAt? {run : Run} (here : runAt? program position = some run) :
    position ≤ run.start ∧ Idle program position run.start ∧ 1 ≤ run.length ∧
      (∀ place, run.Covers place → program[place]? = some run.instruction.symbol) ∧
      program[run.stop]? ≠ some run.instruction.symbol := by
  rcases runAt?_cases program position with ⟨none, -⟩ | ⟨other, found, facts⟩
  · rw [none] at here
    cases here
  · obtain rfl := Option.some.inj (found.symm.trans here)
    exact facts

theorem position_le (lists : Lists program position found) :
    ∀ run ∈ found, position ≤ run.start := by
  induction lists with
  | stop => simp
  | @line position run found here _ ih =>
      obtain ⟨ahead, -⟩ := of_runAt? here
      intro other present
      rcases List.mem_cons.mp present with rfl | later
      · exact ahead
      · have behind := ih other later
        rw [Run.stop] at behind
        omega

theorem pairwise (lists : Lists program position found) :
    found.Pairwise fun first second => first.stop ≤ second.start := by
  induction lists with
  | stop => exact .nil
  | line _ lists ih => exact .cons lists.position_le ih

/-- Every instruction is inside a run. -/
theorem exists_covers (lists : Lists program position found) {place : Nat} {byte : UInt8}
    (behind : position ≤ place) (present : program[place]? = some byte)
    (isOne : isInstruction byte = true) : ∃ run ∈ found, run.Covers place := by
  induction lists with
  | @stop position none =>
      rcases runAt?_cases program position with ⟨-, idle⟩ | ⟨run, here, -⟩
      · have inside : place < program.length := (List.getElem?_eq_some_iff.mp present).1
        rw [idle place byte behind inside present] at isOne
        cases isOne
      · rw [none] at here
        cases here
  | @line position run found here _ ih =>
      obtain ⟨-, idle, -⟩ := of_runAt? here
      rcases Nat.lt_or_ge place run.start with before | reached
      · rw [idle place byte behind before present] at isOne
        cases isOne
      · rcases Nat.lt_or_ge place run.stop with inside | beyond
        · exact ⟨run, List.mem_cons_self, reached, inside⟩
        · obtain ⟨other, later, covers⟩ := ih beyond
          exact ⟨other, List.mem_cons_of_mem _ later, covers⟩

theorem isRun (lists : Lists program position found)
    (divided : ∀ (place : Nat) (instruction : Instruction), place + 1 = position →
      program[place]? = some instruction.symbol → program[position]? ≠ some instruction.symbol) :
    ∀ run ∈ found, IsRun program run := by
  induction lists with
  | stop => simp
  | @line position run found here _ ih =>
      obtain ⟨ahead, idle, positive, holds, ends⟩ := of_runAt? here
      intro other present
      rcases List.mem_cons.mp present with rfl | later
      · refine ⟨positive, holds, ?_, ends⟩
        intro place before same
        rcases Nat.lt_or_ge place position with outside | skipped
        · obtain rfl : position = other.start := by omega
          refine divided place other.instruction before same (holds other.start ?_)
          exact ⟨Nat.le_refl _, Nat.lt_add_of_pos_right positive⟩
        · have isNone := idle place _ skipped (by omega) same
          rw [isInstruction_symbol] at isNone
          cases isNone
      · refine ih ?_ other later
        intro place instruction before same
        have last := holds place (by rw [Run.Covers, Run.stop] at *; omega)
        rw [same, Option.some.injEq] at last
        rw [last]
        exact ends

/-- From the start of a program on exactly its runs are found. -/
theorem mem_iff (lists : Lists program 0 found) (run : Run) :
    run ∈ found ↔ IsRun program run := by
  have areRuns := lists.isRun fun place _ before => by omega
  constructor
  · exact areRuns run
  · intro isRun
    obtain ⟨other, present, covers⟩ := lists.exists_covers (Nat.zero_le run.start)
      (isRun.holds _ isRun.covers_start) (isInstruction_symbol _)
    rw [isRun.eq_of_covers (areRuns other present) isRun.covers_start covers]
    exact present

end Lists

/-! ## Lines -/

theorem digitsValue?_decimal (number : Nat) : digitsValue? (decimal number) = some number :=
  digitsValue?_eq_some_iff.mpr
    ⟨Nat.toDigits 10 number, Nat.toDigits_ne_nil,
      fun _ present => Nat.isDigit_of_mem_toDigits (by decide) (by decide) present, rfl,
      Nat.ofDigitChars_ten_toDigits⟩

theorem decimal_injective {first second : Nat} (same : decimal first = decimal second) :
    first = second := by
  have values := congrArg digitsValue? same
  rw [digitsValue?_decimal, digitsValue?_decimal] at values
  exact Option.some.inj values

theorem notMem_decimal {byte : UInt8} (small : byte < ascii '0') (number : Nat) :
    byte ∉ decimal number := by
  intro present
  have value := digitsValue?_decimal number
  rw [digitsValue?] at value
  split at value
  · rename_i digits
    have bounds := List.all_eq_true.mp digits.2 byte present
    simp only [Bool.and_eq_true, decide_eq_true_eq] at bounds
    exact absurd small (UInt8.not_lt.mpr bounds.1)
  · cases value

theorem eq_of_append_cons_eq {front back rest others : Bytes} {separator : UInt8}
    (notFront : separator ∉ front) (notBack : separator ∉ back)
    (same : front ++ separator :: rest = back ++ separator :: others) :
    front = back ∧ rest = others := by
  induction front generalizing back with
  | nil =>
      cases back with
      | nil => exact ⟨rfl, (List.cons.inj same).2⟩
      | cons byte back => exact (notBack ((List.cons.inj same).1 ▸ List.mem_cons_self)).elim
  | cons byte front ih =>
      cases back with
      | nil => exact (notFront ((List.cons.inj same).1 ▸ List.mem_cons_self)).elim
      | cons other back =>
          obtain ⟨rfl, behind⟩ := List.cons.inj same
          obtain ⟨rfl, rfl⟩ := ih (fun present => notFront (List.mem_cons_of_mem _ present))
            (fun present => notBack (List.mem_cons_of_mem _ present)) behind
          exact ⟨rfl, rfl⟩

theorem Instruction.mnemonic_injective {first second : Instruction}
    (same : first.mnemonic = second.mnemonic) : first = second := by
  have found := ofName?_eq_some_iff.mpr (.inl (Eq.refl first.mnemonic))
  rw [same, ofName?_eq_some_iff.mpr (.inl rfl)] at found
  exact (Option.some.inj found).symm

namespace Run

/-- The mnemonic of a run, with its length behind a star if that is more than one. -/
def name (run : Run) : Bytes :=
  run.instruction.mnemonic ++ if 1 < run.length then star :: decimal run.length else []

/-- A number with a space in the place of a sign, at the end of a field of at least six bytes. -/
def field (number : Nat) : Bytes :=
  List.leftpad 6 (ascii ' ') (ascii ' ' :: decimal number)

theorem address_eq_field (position : Nat) : address position = field position := by
  have spaces : max 1 (6 - (decimal position).length) =
      6 - ((decimal position).length + 1) + 1 := by omega
  simp only [address, field, List.leftpad, List.length_cons, spaces, List.replicate_succ',
    List.append_assoc, List.singleton_append]

theorem flatten_chunks (run : Run) : run.chunks.flatten = run.name := by
  rw [chunks, name]
  split
  · simp only [List.flatten_cons, List.flatten_nil, List.append_nil]
    rfl
  · simp

theorem flatten_line (run : Run) :
    run.line.flatten = field run.start ++ text "\t" ++ run.name ++ text "\n" := by
  simp [line, flatten_chunks, address_eq_field]

theorem line_append_eq (run : Run) (rest : Bytes) :
    run.line.flatten ++ rest =
      field run.start ++ ascii '\t' :: (run.name ++ ascii '\n' :: rest) := by
  have tab : text "\t" = [ascii '\t'] := rfl
  have lineFeed : text "\n" = [ascii '\n'] := rfl
  rw [flatten_line, tab, lineFeed]
  simp

theorem notMem_field {byte : UInt8} (small : byte < ascii '0') (notSpace : byte ≠ ascii ' ')
    (number : Nat) : byte ∉ field number := by
  simp [field, List.leftpad, notSpace, notMem_decimal small]

theorem field_injective {first second : Nat} (same : field first = field second) :
    first = second := by
  have digits (number : Nat) : (field number).filter (· != ascii ' ') = decimal number := by
    have noSpace : ∀ byte ∈ decimal number, (byte != ascii ' ') = true := by
      intro byte present
      rw [bne_iff_ne]
      rintro rfl
      exact notMem_decimal (by decide) number present
    rw [field, List.leftpad, List.filter_append, List.filter_replicate_of_neg (by simp),
      List.nil_append, List.filter_cons_of_neg (by simp), List.filter_eq_self.mpr noSpace]
  apply decimal_injective
  rw [← digits, ← digits, same]

theorem notMem_name {byte : UInt8} (small : byte < ascii '0') (notStar : byte ≠ star)
    (run : Run) : byte ∉ run.name := by
  have letters : run.instruction.mnemonic.all (ascii '0' ≤ ·) = true := by
    cases run.instruction <;> decide
  have noLetter : byte ∉ run.instruction.mnemonic := fun present =>
    UInt8.not_lt.mpr (of_decide_eq_true (List.all_eq_true.mp letters byte present)) small
  rw [name, List.mem_append, not_or]
  refine ⟨noLetter, ?_⟩
  split
  · rw [List.mem_cons, not_or]
    exact ⟨notStar, notMem_decimal small _⟩
  · exact List.not_mem_nil

/-- A name tells the instruction and the length. -/
theorem name_injective {run other : Run} (positive : 1 ≤ run.length)
    (positiveToo : 1 ≤ other.length) (same : run.name = other.name) :
    run.instruction = other.instruction ∧ run.length = other.length := by
  have starless (instruction : Instruction) : star ∉ instruction.mnemonic :=
    Instruction.star_notMem_name (.inl rfl)
  rw [name, name] at same
  split at same <;> split at same
  · obtain ⟨names, lengths⟩ := eq_of_append_cons_eq (starless _) (starless _) same
    exact ⟨Instruction.mnemonic_injective names, decimal_injective lengths⟩
  · refine (starless other.instruction ?_).elim
    rw [List.append_nil] at same
    rw [← same]
    simp
  · refine (starless run.instruction ?_).elim
    rw [List.append_nil] at same
    rw [same]
    simp
  · rw [List.append_nil, List.append_nil] at same
    exact ⟨Instruction.mnemonic_injective same, by omega⟩

/-- A line tells its run, and where it ends. -/
theorem line_append_injective {run other : Run} (positive : 1 ≤ run.length)
    (positiveToo : 1 ≤ other.length) {rest others : Bytes}
    (same : run.line.flatten ++ rest = other.line.flatten ++ others) :
    run = other ∧ rest = others := by
  have noTab (number : Nat) : ascii '\t' ∉ field number :=
    notMem_field (by decide) (by decide) number
  have noLineFeed (run : Run) : ascii '\n' ∉ run.name :=
    notMem_name (by decide) (by decide) run
  rw [line_append_eq, line_append_eq] at same
  obtain ⟨addresses, behind⟩ := eq_of_append_cons_eq (noTab _) (noTab _) same
  obtain ⟨names, rfl⟩ := eq_of_append_cons_eq (noLineFeed _) (noLineFeed _) behind
  obtain ⟨instruction, length⟩ := name_injective positive positiveToo names
  refine ⟨?_, rfl⟩
  cases run
  cases other
  rw [mk.injEq]
  exact ⟨field_injective addresses, instruction, length⟩

end Run

/-- The lines of runs can be read back. -/
theorem eq_of_lines_eq {found others : List Run} (positive : ∀ run ∈ found, 1 ≤ run.length)
    (positiveToo : ∀ run ∈ others, 1 ≤ run.length)
    (same : found.flatMap (fun run => run.line.flatten) =
      others.flatMap fun run => run.line.flatten) : found = others := by
  induction found generalizing others with
  | nil =>
      cases others with
      | nil => rfl
      | cons other others =>
          rw [List.flatMap_cons, Run.line_append_eq] at same
          simp at same
  | cons run found ih =>
      cases others with
      | nil =>
          rw [List.flatMap_cons, Run.line_append_eq] at same
          simp at same
      | cons other others =>
          obtain ⟨rfl, behind⟩ := Run.line_append_injective (positive run List.mem_cons_self)
            (positiveToo other List.mem_cons_self) same
          rw [ih (fun run present => positive run (List.mem_cons_of_mem _ present))
            (fun run present => positiveToo run (List.mem_cons_of_mem _ present)) behind]

/-! ## Faithful listings -/

theorem flatten_listing (program : Bytes) :
    (listing program).flatten = (runs program).flatMap fun run => run.line.flatten := by
  rw [listing, List.flatMap_def, List.flatten_flatten, List.map_map]
  rfl

theorem mem_runs_iff {program : Bytes} {run : Run} : run ∈ runs program ↔ IsRun program run :=
  (lists_runs program).mem_iff run

/-- The instructions of a program are the ones inside its runs. -/
theorem getElem?_eq_symbol_iff {program : Bytes} {place : Nat} {instruction : Instruction} :
    program[place]? = some instruction.symbol ↔
      ∃ run ∈ runs program, run.Covers place ∧ run.instruction = instruction := by
  constructor
  · intro present
    obtain ⟨run, isOne, covers⟩ := (lists_runs program).exists_covers (Nat.zero_le place) present
      (isInstruction_symbol instruction)
    have held := (mem_runs_iff.mp isOne).holds place covers
    rw [present, Option.some.injEq] at held
    exact ⟨run, isOne, covers, Instruction.symbol_injective held.symm⟩
  · rintro ⟨run, isOne, covers, rfl⟩
    exact (mem_runs_iff.mp isOne).holds place covers

theorem pairwise_start_runs (program : Bytes) :
    (runs program).Pairwise fun first second => first.start < second.start := by
  refine (lists_runs program).pairwise.imp_of_mem ?_
  intro first second isFirst _ behind
  have positive := (mem_runs_iff.mp isFirst).positive
  rw [Run.stop] at behind
  omega

/-- Programs with the same instructions at the same positions have the same runs. -/
theorem runs_eq_iff {program other : Bytes} :
    runs program = runs other ↔
      ∀ (place : Nat) (instruction : Instruction),
        program[place]? = some instruction.symbol ↔ other[place]? = some instruction.symbol := by
  constructor
  · intro same place instruction
    rw [getElem?_eq_symbol_iff, getElem?_eq_symbol_iff, same]
  · intro same
    have sameRuns (run : Run) : run ∈ runs program ↔ run ∈ runs other := by
      rw [mem_runs_iff, mem_runs_iff, isRun_iff, isRun_iff]
      simp only [ne_eq, same]
    have : Std.Antisymm fun first second : Run => first.start < second.start :=
      ⟨fun _ _ before behind => (Nat.lt_asymm before behind).elim⟩
    have : Std.Irrefl fun first second : Run => first.start < second.start :=
      ⟨fun _ => Nat.lt_irrefl _⟩
    exact (pairwise_start_runs program).eq_of_mem_iff (pairwise_start_runs other) sameRuns

/-- A listing has one line for each longest sequence of an instruction, in order, and tells programs
apart that differ in an instruction or its position. -/
theorem listing_shows_all_instructions (program : Bytes) :
    (∃ found : List Run, Lists program 0 found ∧
      (writeGuarded Sink.unlimited (listing program)).2 = none ∧
      (writeGuarded Sink.unlimited (listing program)).1.content =
        found.flatMap (fun run =>
          Run.field run.start ++ text "\t" ++ run.name ++ text "\n") ∧
      (found.Pairwise fun first second => first.stop ≤ second.start) ∧
      (∀ run, run ∈ found ↔ IsRun program run) ∧
      (∀ place byte, program[place]? = some byte → isInstruction byte = true →
        ∃! run, run ∈ found ∧ run.Covers place) ∧
      ∀ run ∈ found, ∀ place, run.Covers place →
        program[place]? = some run.instruction.symbol) ∧
    ∀ other : Bytes,
      (writeGuarded Sink.unlimited (listing program)).1.content =
          (writeGuarded Sink.unlimited (listing other)).1.content ↔
        ∀ (place : Nat) (instruction : Instruction),
          program[place]? = some instruction.symbol ↔ other[place]? = some instruction.symbol := by
  have lists := lists_runs program
  refine ⟨⟨runs program, lists, ?_, ?_, lists.pairwise, fun _ => mem_runs_iff, ?_, ?_⟩, ?_⟩
  · rw [Sink.writeGuarded_unlimited]
  · rw [Sink.writeGuarded_unlimited, Sink.content_holding, flatten_listing]
    simp only [Run.flatten_line]
  · intro place byte present isOne
    obtain ⟨run, isRun, covers⟩ := lists.exists_covers (Nat.zero_le place) present isOne
    refine ⟨run, ⟨isRun, covers⟩, ?_⟩
    rintro other ⟨isOther, coversToo⟩
    exact (mem_runs_iff.mp isOther).eq_of_covers (mem_runs_iff.mp isRun) coversToo covers
  · intro run isRun
    exact (mem_runs_iff.mp isRun).holds
  · intro other
    have positive (program : Bytes) : ∀ run ∈ runs program, 1 ≤ run.length :=
      fun run isRun => (mem_runs_iff.mp isRun).positive
    rw [Sink.writeGuarded_unlimited, Sink.writeGuarded_unlimited, Sink.content_holding,
      Sink.content_holding, flatten_listing, flatten_listing, ← runs_eq_iff]
    exact ⟨eq_of_lines_eq (positive program) (positive other), fun same => by rw [same]⟩

example : (listing (text "++#+>")).flatten =
    text "     0\tflip*2\n     3\tflip\n     4\tright\n" := by
  decide

end BitTape
