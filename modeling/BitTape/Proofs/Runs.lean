import Mathlib.Data.List.SplitBy
import BitTape.Listing
import BitTape.Proofs.Stripping

/-!
# Runs of equal instructions

`instructionRuns` are the longest parts of a program in which one instruction is repeated.  Joined,
they are the program without its comments.  Walking through a program piece by piece comes to an
end, and finds these runs one after the other.
-/

namespace BitTape

/-- The longest parts of a program that consist of one and the same instruction. -/
def instructionRuns (program : Bytes) : List Bytes :=
  (program.splitBy fun first second => first == second).filter fun run => run.all isInstruction

/-! ## The first run -/

theorem exists_replicate_append (byte : UInt8) (rest : Bytes) :
    ∃ behind, rest = List.replicate (rest.findIdx (· != byte)) byte ++ behind ∧
      ∀ next ∈ behind.head?, next ≠ byte := by
  induction rest with
  | nil => exact ⟨[], rfl, by simp⟩
  | cons first others ih =>
      by_cases same : first = byte
      · subst same
        obtain ⟨behind, split, ends⟩ := ih
        refine ⟨behind, ?_, ends⟩
        rw [List.findIdx_cons, bne_self_eq_false, cond_false, List.replicate_succ, List.cons_append,
          ← split]
      · refine ⟨first :: others, ?_, by simpa using same⟩
        have differs : (first != byte) = true := bne_iff_ne.mpr same
        rw [List.findIdx_cons, differs, cond_true, List.replicate_zero, List.nil_append]

theorem instructionRuns_replicate_append {byte : UInt8} {behind : Bytes}
    (ends : ∀ next ∈ behind.head?, next ≠ byte) (more : Nat) :
    instructionRuns (List.replicate (more + 1) byte ++ behind) =
      if isInstruction byte then List.replicate (more + 1) byte :: instructionRuns behind
      else instructionRuns behind := by
  have apart : ∀ last ∈ (List.replicate (more + 1) byte).getLast?, ∀ next ∈ behind.head?,
      (last == next) = false := by
    intro last isLast next isNext
    obtain rfl := List.eq_of_mem_replicate (List.mem_of_mem_getLast? isLast)
    simpa using (ends next isNext).symm
  have chained : (List.replicate (more + 1) byte).IsChain fun first second =>
      (first == second) = true :=
    List.isChain_replicate_of_rel _ (beq_self_eq_true byte)
  rw [instructionRuns, List.splitBy_append apart, List.splitBy_of_isChain (by simp) chained,
    List.singleton_append, List.filter_cons, ← instructionRuns]
  simp

theorem instructionRuns_cons_of_comment {byte : UInt8} (isNone : isInstruction byte = false)
    (rest : Bytes) : instructionRuns (byte :: rest) = instructionRuns rest := by
  obtain ⟨behind, split, ends⟩ := exists_replicate_append byte rest
  have whole : byte :: rest =
      List.replicate (rest.findIdx (· != byte) + 1) byte ++ behind := by
    rw [List.replicate_succ, List.cons_append, ← split]
  rw [whole, instructionRuns_replicate_append ends, isNone]
  cases more : rest.findIdx (· != byte) with
  | zero =>
      rw [more] at split
      rw [split]
      rfl
  | succ others =>
      rw [more] at split
      rw [split, instructionRuns_replicate_append ends, isNone]
      rfl

/-- An instruction and the equal ones behind it make up a run. -/
theorem exists_first_run {byte : UInt8} (isOne : isInstruction byte = true) (rest : Bytes) :
    ∃ behind, byte :: rest = List.replicate (rest.findIdx (· != byte) + 1) byte ++ behind ∧
      instructionRuns (byte :: rest) =
        List.replicate (rest.findIdx (· != byte) + 1) byte :: instructionRuns behind := by
  obtain ⟨behind, split, ends⟩ := exists_replicate_append byte rest
  have whole : byte :: rest =
      List.replicate (rest.findIdx (· != byte) + 1) byte ++ behind := by
    rw [List.replicate_succ, List.cons_append, ← split]
  refine ⟨behind, whole, ?_⟩
  conv => lhs; rw [whole]
  rw [instructionRuns_replicate_append ends, if_pos isOne]

/-- The runs of a program hold all of its instructions. -/
theorem flatten_instructionRuns (program : Bytes) :
    (instructionRuns program).flatten = strip program := by
  induction length_eq : program.length using Nat.strongRecOn generalizing program with
  | ind length ih =>
      cases program with
      | nil => rfl
      | cons byte rest =>
          cases kind : isInstruction byte with
          | false =>
              rw [instructionRuns_cons_of_comment kind, strip_cons_of_comment kind]
              refine ih rest.length ?_ rest rfl
              rw [← length_eq, List.length_cons]
              omega
          | true =>
              obtain ⟨behind, whole, found⟩ := exists_first_run kind rest
              have shorter : behind.length < length := by
                rw [← length_eq, whole, List.length_append, List.length_replicate]
                omega
              have own : strip (List.replicate (rest.findIdx (· != byte) + 1) byte) =
                  List.replicate (rest.findIdx (· != byte) + 1) byte := by
                rw [strip, List.filter_replicate_of_pos kind]
              rw [found, List.flatten_cons, ih _ shorter _ rfl]
              conv => rhs; rw [whole, strip_append, own]

/-! ## Pieces -/

theorem instructionRuns_drop_findIdx (rest : Bytes) :
    instructionRuns (rest.drop (rest.findIdx isInstruction)) = instructionRuns rest ∧
      ∀ byte ∈ (rest.drop (rest.findIdx isInstruction)).head?, isInstruction byte = true := by
  induction rest with
  | nil => exact ⟨rfl, by simp⟩
  | cons byte rest ih =>
      cases kind : isInstruction byte with
      | false =>
          rw [List.findIdx_cons, kind, cond_false, List.drop_succ_cons,
            instructionRuns_cons_of_comment kind]
          exact ih
      | true =>
          rw [List.findIdx_cons, kind, cond_true, List.drop_zero]
          exact ⟨rfl, by simpa using kind⟩

/-- The piece at a position is the first run there, if there is one. -/
theorem pieceAt_cases (program : Bytes) (position : Nat) :
    (pieceAt program position = (program.length, []) ∧
        instructionRuns (program.drop position) = []) ∨
      ∃ run : Run, pieceAt program position = (run.stop, run.chunks) ∧ 1 ≤ run.length ∧
        position < run.stop ∧ run.stop ≤ program.length ∧
        instructionRuns (program.drop position) =
          List.replicate run.length run.instruction.symbol ::
            instructionRuns (program.drop run.stop) := by
  let rest := program.drop position
  obtain ⟨skipped, starts⟩ := instructionRuns_drop_findIdx rest
  cases remaining : rest.drop (rest.findIdx isInstruction) with
  | nil =>
      refine .inl ⟨?_, ?_⟩
      · simp only [pieceAt, runAt?, rest, remaining]
      · rw [← skipped, remaining]
        rfl
  | cons byte more =>
      rw [remaining] at skipped starts
      have isOne : isInstruction byte = true := starts byte rfl
      obtain ⟨instruction, found⟩ := Option.isSome_iff_exists.mp isOne
      obtain rfl := Instruction.ofByte?_eq_some_iff.mp found
      obtain ⟨behind, whole, first⟩ := exists_first_run isOne more
      let run : Run :=
        { start := position + rest.findIdx isInstruction, instruction
          length := more.findIdx (· != instruction.symbol) + 1 }
      have here : program.drop run.start =
          List.replicate run.length instruction.symbol ++ behind := by
        rw [← whole, ← remaining, List.drop_drop]
      have later : program.drop run.stop = behind := by
        rw [Run.stop, ← List.drop_drop, here]
        exact List.drop_left' List.length_replicate
      have lengths := congrArg List.length here
      rw [List.length_drop, List.length_append, List.length_replicate] at lengths
      have positive : 1 ≤ run.length := Nat.succ_pos _
      refine .inr ⟨run, ?_, positive, ?_, ?_, ?_⟩
      · simp only [pieceAt, runAt?, rest, remaining, found, run, Option.map_some]
      · have ahead : position ≤ run.start := Nat.le_add_right _ _
        rw [Run.stop]
        omega
      · rw [Run.stop]
        omega
      · rw [later, ← first, skipped]

/-! ## Walks -/

/-- Going on from a position, piece by piece, until the end of the program. -/
inductive Walks (program : Bytes) : (position : Nat) → (found : List (Nat × Bytes)) → Prop where
  | stop {position : Nat} : program.length ≤ position → Walks program position []
  | step {position next : Nat} {chunks : List Bytes} {found : List (Nat × Bytes)} :
      position < program.length → pieceAt program position = (next, chunks) →
        Walks program next found → Walks program position ((next, chunks.flatten) :: found)

/-- Every piece leads on, so the length of a program is enough for a walk. -/
theorem walks_spellingFrom {program : Bytes} {steps position : Nat}
    (enough : program.length ≤ position + steps) :
    Walks program position (spellingFrom program steps position) := by
  induction steps generalizing position with
  | zero => exact .stop enough
  | succ steps ih =>
      have later : program.length ≤ (pieceAt program position).1 + steps := by
        obtain ⟨piece, -⟩ | ⟨run, piece, -, forward, -⟩ := pieceAt_cases program position
        · rw [piece]
          exact Nat.le_add_right _ _
        · rw [piece]
          dsimp only
          omega
      rw [spellingFrom]
      split
      · rename_i inside
        exact .step inside rfl (ih later)
      · rename_i outside
        exact .stop (Nat.not_lt.mp outside)

end BitTape
