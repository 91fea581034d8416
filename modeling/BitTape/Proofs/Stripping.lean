import BitTape.Proofs.Matching

/-!
# Programs without their comments

Stripping a program moves its instructions to the left.  `rank` is the new position of an
instruction: the number of instructions before it.  Stripping keeps balance, partners stay partners
at their ranks, and a bracket without a partner is reported at its rank.
-/

namespace BitTape

/-- Number of instructions before a position. -/
def rank (program : Bytes) (position : Nat) : Nat :=
  (strip (program.take position)).length

theorem isInstruction_symbol (instruction : Instruction) :
    isInstruction instruction.symbol = true := by
  rw [isInstruction, Instruction.ofByte?_symbol]
  rfl

theorem strip_append (front back : Bytes) : strip (front ++ back) = strip front ++ strip back :=
  List.filter_append front back

theorem strip_cons_of_instruction {byte : UInt8} (isOne : isInstruction byte = true)
    (rest : Bytes) : strip (byte :: rest) = byte :: strip rest :=
  List.filter_cons_of_pos isOne

theorem strip_cons_of_comment {byte : UInt8} (isNone : isInstruction byte = false)
    (rest : Bytes) : strip (byte :: rest) = strip rest :=
  List.filter_cons_of_neg (by simp [isNone])

theorem take_rank (program : Bytes) (position : Nat) :
    (strip program).take (rank program position) = strip (program.take position) := by
  conv => lhs; rw [← List.take_append_drop position program, strip_append]
  rw [List.take_append_drop, rank, List.take_left]

theorem drop_rank (program : Bytes) (position : Nat) :
    (strip program).drop (rank program position) = strip (program.drop position) := by
  conv => lhs; rw [← List.take_append_drop position program, strip_append]
  rw [List.take_append_drop, rank, List.drop_left]

theorem rank_length (program : Bytes) : rank program program.length = (strip program).length := by
  rw [rank, List.take_length]

theorem rank_succ_of_instruction {program : Bytes} {position : Nat} {byte : UInt8}
    (here : program[position]? = some byte) (isOne : isInstruction byte = true) :
    rank program (position + 1) = rank program position + 1 := by
  rw [rank, List.take_add_one, here, strip_append, List.length_append, ← rank]
  simp [strip, isOne]

theorem rank_succ_of_comment {program : Bytes} {position : Nat} {byte : UInt8}
    (here : program[position]? = some byte) (isNone : isInstruction byte = false) :
    rank program (position + 1) = rank program position := by
  rw [rank, List.take_add_one, here, strip_append, List.length_append, ← rank]
  simp [strip, isNone]

theorem rank_mono (program : Bytes) {first second : Nat} (le : first ≤ second) :
    rank program first ≤ rank program second :=
  ((List.take_prefix_take_left le).filter _).length_le

theorem getElem?_rank {program : Bytes} {position : Nat} {byte : UInt8}
    (here : program[position]? = some byte) (isOne : isInstruction byte = true) :
    (strip program)[rank program position]? = some byte := by
  obtain ⟨inside, rfl⟩ := List.getElem?_eq_some_iff.mp here
  have behind := drop_rank program position
  rw [List.drop_eq_getElem_cons inside, strip_cons_of_instruction isOne] at behind
  rw [← List.head?_drop, behind]
  rfl

theorem extract_rank (program : Bytes) {start stop : Nat} (le : start ≤ stop) :
    (strip program).extract (rank program start) (rank program stop) =
      strip (program.extract start stop) := by
  have sameRank : rank program start = rank (program.take stop) start := by
    rw [rank, rank, List.take_take, Nat.min_eq_left le]
  rw [List.extract_eq_take_drop, List.extract_eq_take_drop, ← List.drop_take, ← List.drop_take,
    take_rank, sameRank, drop_rank]

/-! ## Balance and partners -/

theorem count_strip (instruction : Instruction) (program : Bytes) :
    (strip program).count instruction.symbol = program.count instruction.symbol :=
  List.count_filter (isInstruction_symbol instruction)

theorem balanced_strip_iff (program : Bytes) : Balanced (strip program) ↔ Balanced program := by
  constructor
  · rintro ⟨nested, closed⟩
    refine ⟨fun front isFront => ?_, by simpa only [count_strip] using closed⟩
    have bounded := nested (strip front) (isFront.filter _)
    simpa only [count_strip] using bounded
  · rintro ⟨nested, closed⟩
    refine ⟨fun front isFront => ?_, by simpa only [count_strip] using closed⟩
    obtain ⟨back, split⟩ := isFront
    obtain ⟨first, second, rfl, rfl, -⟩ := List.filter_eq_append_iff.mp split.symm
    have bounded := nested first (List.prefix_append first second)
    rw [← strip, count_strip, count_strip]
    exact bounded

theorem Partners.strip {program : Bytes} {start stop : Nat}
    (partners : Partners program start stop) :
    Partners (strip program) (rank program start) (rank program stop) := by
  have behind : rank program (start + 1) = rank program start + 1 :=
    rank_succ_of_instruction partners.start_eq (isInstruction_symbol .loop)
  have le : rank program (start + 1) ≤ rank program stop := rank_mono program partners.start_lt
  refine ⟨by omega, ?_, ?_, ?_⟩
  · exact getElem?_rank partners.start_eq (isInstruction_symbol .loop)
  · exact getElem?_rank partners.stop_eq (isInstruction_symbol .close)
  · rw [← behind, extract_rank program partners.start_lt]
    exact (balanced_strip_iff _).mpr partners.balanced

theorem Linked.strip {program : Bytes} {position target : Nat}
    (linked : Linked program position target) :
    Linked (strip program) (rank program position) (rank program target) :=
  linked.imp Partners.strip Partners.strip

/-! ## Brackets without a partner -/

namespace JumpTable

/-- A failing scan fails in the same way without the comments, with ranks in the place of positions.
-/
theorem scan_strip_of_error {program front rest : Bytes} {opened : List Nat}
    {entries bareEntries : Array (Option Nat)} {position : Nat} (split : front ++ rest = program)
    (size_eq : entries.size = front.length)
    (bareSize_eq : bareEntries.size = rank program front.length)
    (loops : ∀ start ∈ opened, program[start]? = some Instruction.loop.symbol)
    (failed : scan rest opened entries = .error ⟨position⟩) :
    scan (strip rest) (opened.map (rank program)) bareEntries =
        .error ⟨rank program position⟩ ∧
      ∃ bracket : Instruction, (bracket = .loop ∨ bracket = .close) ∧
        program[position]? = some bracket.symbol := by
  induction rest generalizing front opened entries bareEntries with
  | nil =>
      cases opened with
      | nil => simp [scan] at failed
      | cons innermost outer =>
          simp only [scan, Except.error.injEq, Mismatch.mk.injEq] at failed
          refine ⟨?_, .loop, .inl rfl, loops _ (failed ▸ List.getLast_mem _)⟩
          have last := List.getLast_map (f := rank program) (l := innermost :: outer) (by simp)
          rw [← failed, ← last]
          rfl
  | cons byte rest ih =>
      have here : program[front.length]? = some byte := by simp [← split]
      have split : (front ++ [byte]) ++ rest = program := by simpa using split
      obtain ⟨action, rfl⟩ | rfl | rfl := Action.byte_cases byte
      · rw [scan_act] at failed
        cases isOne : isInstruction action.symbol with
        | true =>
            have moved := rank_succ_of_instruction here isOne
            rw [strip_cons_of_instruction isOne, scan_act]
            exact ih split (by simp [size_eq]) (by simp [bareSize_eq, moved]) loops failed
        | false =>
            have stayed := rank_succ_of_comment here isOne
            rw [strip_cons_of_comment isOne]
            exact ih split (by simp [size_eq]) (by simp [bareSize_eq, stayed]) loops failed
      · have moved := rank_succ_of_instruction here (isInstruction_symbol .loop)
        rw [scan_loop, size_eq] at failed
        rw [strip_cons_of_instruction (isInstruction_symbol .loop), scan_loop, bareSize_eq,
          ← List.map_cons]
        refine ih split (by simp [size_eq]) (by simp [bareSize_eq, moved]) ?_ failed
        intro start isOpen
        rcases List.mem_cons.mp isOpen with rfl | before
        · exact here
        · exact loops start before
      · have moved := rank_succ_of_instruction here (isInstruction_symbol .close)
        rw [strip_cons_of_instruction (isInstruction_symbol .close)]
        cases opened with
        | nil =>
            simp only [scan_close_nil, Except.error.injEq, Mismatch.mk.injEq] at failed
            subst failed
            refine ⟨by rw [List.map_nil, scan_close_nil, bareSize_eq, size_eq], ?_⟩
            exact ⟨.close, .inr rfl, size_eq ▸ here⟩
        | cons partner outer =>
            rw [scan_close_cons] at failed
            rw [List.map_cons, scan_close_cons]
            refine ih split (by simp [size_eq]) (by simp [bareSize_eq, moved]) ?_ failed
            intro start isOpen
            exact loops start (List.mem_cons_of_mem partner isOpen)

theorem ofProgram_strip_of_error {program : Bytes} {position : Nat}
    (failed : ofProgram program = .error ⟨position⟩) :
    ofProgram (strip program) = .error ⟨rank program position⟩ ∧
      ∃ bracket : Instruction, (bracket = .loop ∨ bracket = .close) ∧
        program[position]? = some bracket.symbol :=
  scan_strip_of_error (List.nil_append program) rfl rfl (by simp) failed

end JumpTable
end BitTape
