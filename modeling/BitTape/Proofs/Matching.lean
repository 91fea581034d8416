import BitTape.Proofs.Balance
import BitTape.Proofs.Layout

/-!
# The matching of the brackets

Two brackets are partners if the program between them is balanced.  A jump table holds exactly the
partners of its program.  The argument counts open loops: `depth` is their number before a position,
it rises behind a loop, falls behind an end, and between two partners it stays above the depth at
their outside.  So a bracket has one partner, and pairs of partners are nested or disjoint.
-/

namespace BitTape

/-- Number of loops that are open before a position, if no end is unmatched. -/
def depth (program : Bytes) (position : Nat) : Int :=
  (program.take position).count Instruction.loop.symbol -
    (program.take position).count Instruction.close.symbol

/-- A loop and an end with a balanced program between them. -/
structure Partners (program : Bytes) (start stop : Nat) : Prop where
  start_lt : start < stop
  start_eq : program[start]? = some Instruction.loop.symbol
  stop_eq : program[stop]? = some Instruction.close.symbol
  balanced : Balanced (program.extract (start + 1) stop)

/-! ## Depths -/

private theorem count_take_succ {program : Bytes} {position : Nat} {byte : UInt8}
    (here : program[position]? = some byte) (bracket : UInt8) :
    (program.take (position + 1)).count bracket =
      (program.take position).count bracket + [byte].count bracket := by
  rw [List.take_add_one, here, List.count_append]
  rfl

theorem depth_succ_of_loop {program : Bytes} {position : Nat}
    (here : program[position]? = some Instruction.loop.symbol) :
    depth program (position + 1) = depth program position + 1 := by
  have loops : [Instruction.loop.symbol].count Instruction.loop.symbol = 1 := rfl
  have ends : [Instruction.loop.symbol].count Instruction.close.symbol = 0 := rfl
  simp only [depth, count_take_succ here, loops, ends]
  omega

theorem depth_succ_of_close {program : Bytes} {position : Nat}
    (here : program[position]? = some Instruction.close.symbol) :
    depth program (position + 1) = depth program position - 1 := by
  have loops : [Instruction.close.symbol].count Instruction.loop.symbol = 0 := rfl
  have ends : [Instruction.close.symbol].count Instruction.close.symbol = 1 := rfl
  simp only [depth, count_take_succ here, loops, ends]
  omega

/-- In a balanced part the depth is nowhere less than at its start, nor more at its end. -/
theorem depth_of_balanced_extract {program : Bytes} {start stop : Nat} (le : start ≤ stop)
    (balanced : Balanced (program.extract start stop)) :
    (∀ position, start ≤ position → position ≤ stop →
      depth program start ≤ depth program position) ∧
      depth program stop = depth program start := by
  have split (position : Nat) (above : start ≤ position) (bracket : UInt8) :
      (program.take position).count bracket =
        (program.take start).count bracket + (program.extract start position).count bracket := by
    rw [List.extract_eq_take_drop, ← List.count_append, ← List.take_add,
      Nat.add_sub_cancel' above]
  refine ⟨?_, ?_⟩
  · intro position above below
    have isFront : program.extract start position <+: program.extract start stop := by
      simp only [List.extract_eq_take_drop]
      exact List.take_prefix_take_left (by omega)
    have bounded := balanced.nested _ isFront
    simp only [depth, split position above]
    omega
  · have closed := balanced.closed
    simp only [depth, split stop le]
    omega

namespace Partners

variable {program : Bytes} {start stop : Nat}

theorem depth_le (partners : Partners program start stop) (position : Nat)
    (above : start < position) (below : position ≤ stop) :
    depth program start + 1 ≤ depth program position := by
  rw [← depth_succ_of_loop partners.start_eq]
  exact (depth_of_balanced_extract partners.start_lt partners.balanced).1 position above below

theorem depth_stop (partners : Partners program start stop) :
    depth program stop = depth program start + 1 := by
  rw [← depth_succ_of_loop partners.start_eq]
  exact (depth_of_balanced_extract partners.start_lt partners.balanced).2

theorem depth_behind (partners : Partners program start stop) :
    depth program (stop + 1) = depth program start := by
  rw [depth_succ_of_close partners.stop_eq, partners.depth_stop]
  omega

theorem nested_or_disjoint_of_lt {other last : Nat} (outer : Partners program start stop)
    (inner : Partners program other last) (earlier : start < other) :
    stop < other ∨ last < stop := by
  rcases Nat.lt_or_ge stop other with disjoint | inside
  · exact .inl disjoint
  have rises := outer.depth_le other earlier inside
  rcases Nat.lt_trichotomy last stop with nested | rfl | crossing
  · exact .inr nested
  · have innerStop := inner.depth_stop
    have outerStop := outer.depth_stop
    omega
  · have stays := inner.depth_le (stop + 1) (by omega) crossing
    have behind := outer.depth_behind
    omega

theorem stop_unique {other : Nat} (first : Partners program start stop)
    (second : Partners program start other) : stop = other := by
  have firstBehind := first.depth_behind
  have secondBehind := second.depth_behind
  rcases Nat.lt_trichotomy stop other with before | same | after
  · have stays := second.depth_le (stop + 1) (by have := first.start_lt; omega) before
    omega
  · exact same
  · have stays := first.depth_le (other + 1) (by have := second.start_lt; omega) after
    omega

/-- Pairs of partners are the same, disjoint or nested. -/
theorem laminar {other last : Nat} (first : Partners program start stop)
    (second : Partners program other last) :
    (start = other ∧ stop = last) ∨ stop < other ∨ last < start ∨
      (start < other ∧ last < stop) ∨ (other < start ∧ stop < last) := by
  rcases Nat.lt_trichotomy start other with before | rfl | after
  · have := first.nested_or_disjoint_of_lt second before
    omega
  · exact .inl ⟨rfl, first.stop_unique second⟩
  · have := second.nested_or_disjoint_of_lt first after
    omega

/-- Partners stay partners when a program is placed inside another. -/
theorem within (partners : Partners program start stop) (front back : Bytes) :
    Partners (front ++ (program ++ back)) (front.length + start) (front.length + stop) := by
  obtain ⟨start_lt, start_eq, stop_eq, balanced⟩ := partners
  have start_inside := (List.getElem?_eq_some_iff.mp start_eq).1
  have stop_inside := (List.getElem?_eq_some_iff.mp stop_eq).1
  refine ⟨by omega, ?_, ?_, ?_⟩
  · rw [List.getElem?_append_right (by omega), Nat.add_sub_cancel_left,
      List.getElem?_append_left start_inside, start_eq]
  · rw [List.getElem?_append_right (by omega), Nat.add_sub_cancel_left,
      List.getElem?_append_left stop_inside, stop_eq]
  · have between : (front ++ (program ++ back)).extract (front.length + start + 1)
        (front.length + stop) = program.extract (start + 1) stop := by
      simp only [List.extract_eq_take_drop, Nat.add_assoc, Nat.add_sub_add_left]
      rw [List.drop_length_add_append, List.drop_append_of_le_length (by omega),
        List.take_append_of_le_length (by rw [List.length_drop]; omega)]
    rw [between]
    exact balanced

end Partners

/-! ## Jump tables -/

/-- The brackets at two positions are partners, in either order. -/
def Linked (program : Bytes) (position target : Nat) : Prop :=
  Partners program position target ∨ Partners program target position

theorem Linked.within {program : Bytes} {position target : Nat}
    (linked : Linked program position target) (front back : Bytes) :
    Linked (front ++ (program ++ back)) (front.length + position) (front.length + target) :=
  linked.imp (·.within front back) (·.within front back)

theorem Linked.symm {program : Bytes} {position target : Nat}
    (linked : Linked program position target) : Linked program target position :=
  Or.symm linked

theorem Linked.bracket {program : Bytes} {position target : Nat}
    (linked : Linked program position target) :
    ∃ bracket : Instruction, (bracket = .loop ∨ bracket = .close) ∧
      program[position]? = some bracket.symbol := by
  rcases linked with partners | partners
  · exact ⟨.loop, .inl rfl, partners.start_eq⟩
  · exact ⟨.close, .inr rfl, partners.stop_eq⟩

private theorem getElem?_enclosed {α : Type} {start stop found : α} {body rest : List α}
    {position : Nat} (here : (start :: (body ++ stop :: rest))[position]? = some found) :
    (position = 0 ∧ start = found) ∨
      (∃ inside, position = 1 + inside ∧ body[inside]? = some found) ∨
      (position = body.length + 1 ∧ stop = found) ∨
      ∃ behind, position = body.length + 2 + behind ∧ rest[behind]? = some found := by
  cases position with
  | zero => exact .inl ⟨rfl, by simpa using here⟩
  | succ position =>
      rw [List.getElem?_cons_succ] at here
      rcases Nat.lt_or_ge position body.length with inside | behind
      · rw [List.getElem?_append_left inside] at here
        exact .inr (.inl ⟨position, by omega, here⟩)
      · rw [List.getElem?_append_right behind] at here
        cases offset : position - body.length with
        | zero => exact .inr (.inr (.inl ⟨by omega, by simpa [offset] using here⟩))
        | succ later =>
            exact .inr (.inr (.inr ⟨later, by omega, by simpa [offset] using here⟩))

namespace Tree

/-- A spelled tree is balanced. -/
theorem balanced_flatten (tree : Tree) : Balanced tree.flatten :=
  (JumpTable.ofProgram_isOk_iff _).mp
    ⟨_, JumpTable.ofProgram_eq_ok_iff.mpr ⟨tree, rfl, rfl⟩⟩

theorem partners_loop (body rest : Tree) :
    Partners (loop body rest).flatten 0 (body.size + 1) where
  start_lt := by omega
  start_eq := rfl
  stop_eq := by simp [flatten, size]
  balanced := by
    have between : (loop body rest).flatten.extract 1 (body.size + 1) = body.flatten := by
      simp [flatten, size, List.extract_eq_take_drop]
    rw [between]
    exact body.balanced_flatten

/-- A link of a tree leads to a partner, which is linked back. -/
theorem linked_of_links {tree : Tree} {base position target : Nat}
    (link : (tree.links base)[position]? = some (some target)) :
    ∃ offset, target = base + offset ∧ Linked tree.flatten position offset ∧
      (tree.links base)[offset]? = some (some (base + position)) := by
  induction tree generalizing base position with
  | nil => simp [links] at link
  | act action rest ih =>
      cases position with
      | zero => simp [links] at link
      | succ position =>
          obtain ⟨offset, rfl, linked, back⟩ := ih (by simpa [links] using link)
          refine ⟨1 + offset, by omega, ?_, ?_⟩
          · have placed := linked.within [action.symbol] []
            rw [Nat.add_comm position]
            simpa [flatten] using placed
          · rw [links, Nat.add_comm 1, List.getElem?_cons_succ, back,
              show base + 1 + position = base + (position + 1) by omega]
  | loop body rest bodyLinked restLinked =>
      have bodyLength : (body.links (base + 1)).length = body.size := length_links ..
      rcases getElem?_enclosed link with
        ⟨rfl, same⟩ | ⟨inside, rfl, found⟩ | ⟨rfl, same⟩ | ⟨behind, rfl, found⟩
      · obtain rfl : base + body.size + 1 = target := by simpa using same
        refine ⟨body.size + 1, rfl, .inl (partners_loop body rest), ?_⟩
        simp [links]
      · obtain ⟨offset, rfl, linked, back⟩ := bodyLinked found
        refine ⟨1 + offset, by omega, ?_, ?_⟩
        · exact linked.within [Instruction.loop.symbol] (Instruction.close.symbol :: rest.flatten)
        · have offset_lt := (List.getElem?_eq_some_iff.mp back).1
          rw [links, Nat.add_comm 1, List.getElem?_cons_succ, List.getElem?_append_left offset_lt,
            back, Nat.add_assoc]
      · obtain rfl : base = target := by simpa using same
        rw [bodyLength]
        refine ⟨0, rfl, .inr (partners_loop body rest), ?_⟩
        rw [links, List.getElem?_cons_zero, Nat.add_assoc]
      · obtain ⟨offset, rfl, linked, back⟩ := restLinked found
        rw [bodyLength]
        refine ⟨body.size + 2 + offset, by omega, ?_, ?_⟩
        · have placed := linked.within
            (Instruction.loop.symbol :: (body.flatten ++ [Instruction.close.symbol])) []
          simpa [flatten, size] using placed
        · rw [links, show body.size + 2 + offset = body.size + (offset + 1) + 1 by omega,
            List.getElem?_cons_succ, List.getElem?_append_right (by omega), bodyLength,
            Nat.add_sub_cancel_left, List.getElem?_cons_succ, back,
            show base + body.size + 2 + behind = base + (body.size + 2 + behind) by omega]

end Tree

namespace JumpTable

variable {program : Bytes} {table : JumpTable}

theorem target?_eq_some_iff (table : JumpTable) (position target : Nat) :
    table.target? position = some target ↔ table.entries[position]? = some (some target) := by
  simp [target?, Option.join_eq_some_iff]

theorem size_entries (accepted : ofProgram program = .ok table) :
    table.entries.size = program.length := by
  obtain ⟨tree, rfl, rfl⟩ := ofProgram_eq_ok_iff.mp accepted
  simp [Tree.size]

theorem linked_of_entry (accepted : ofProgram program = .ok table) {position target : Nat}
    (entry : table.entries[position]? = some (some target)) :
    Linked program position target ∧ table.entries[target]? = some (some position) := by
  obtain ⟨tree, rfl, rfl⟩ := ofProgram_eq_ok_iff.mp accepted
  obtain ⟨offset, same, linked, back⟩ := Tree.linked_of_links (by simpa using entry)
  obtain rfl : target = offset := by omega
  exact ⟨linked, by simpa using back⟩

theorem exists_entry (accepted : ofProgram program = .ok table) {bracket : Instruction}
    (isBracket : bracket = .loop ∨ bracket = .close) {position : Nat}
    (here : program[position]? = some bracket.symbol) :
    ∃ target, table.entries[position]? = some (some target) := by
  obtain ⟨tree, spelled, -⟩ := ofProgram_eq_ok_iff.mp accepted
  obtain ⟨target, found, -⟩ :=
    (Tree.laid_of_ofProgram accepted spelled).exists_target isBracket (spelled ▸ here)
  rw [Nat.zero_add, target?_eq_some_iff] at found
  exact ⟨target, found⟩

/-- The entries of a jump table lead to the partners of the brackets. -/
theorem entry_iff_linked (accepted : ofProgram program = .ok table) (position target : Nat) :
    table.entries[position]? = some (some target) ↔ Linked program position target := by
  constructor
  · intro entry
    exact (linked_of_entry accepted entry).1
  · intro linked
    have forward {start stop : Nat} (partners : Partners program start stop) :
        table.entries[start]? = some (some stop) := by
      obtain ⟨found, entry⟩ := exists_entry accepted (.inl rfl) partners.start_eq
      rcases (linked_of_entry accepted entry).1 with other | other
      · rw [partners.stop_unique other]
        exact entry
      · have clash := partners.start_eq.symm.trans other.stop_eq
        cases clash
    rcases linked with partners | partners
    · exact forward partners
    · exact (linked_of_entry accepted (forward partners)).2

theorem entry_iff_partners (accepted : ofProgram program = .ok table) {start stop : Nat}
    (lt : start < stop) :
    table.entries[start]? = some (some stop) ↔ Partners program start stop := by
  rw [entry_iff_linked accepted]
  constructor
  · rintro (partners | partners)
    · exact partners
    · have := partners.start_lt
      omega
  · exact .inl

theorem entry_eq_none_iff (accepted : ofProgram program = .ok table) {position : Nat}
    (inside : position < program.length) :
    table.entries[position]? = some none ↔
      program[position] ≠ Instruction.loop.symbol ∧
        program[position] ≠ Instruction.close.symbol := by
  have here : program[position]? = some program[position] := List.getElem?_eq_getElem inside
  constructor
  · intro absent
    have notBracket (bracket : Instruction) (isBracket : bracket = .loop ∨ bracket = .close) :
        program[position] ≠ bracket.symbol := by
      intro same
      obtain ⟨target, entry⟩ := exists_entry accepted isBracket (same ▸ here)
      rw [absent] at entry
      cases entry
    exact ⟨notBracket .loop (.inl rfl), notBracket .close (.inr rfl)⟩
  · rintro ⟨notLoop, notClose⟩
    have present : position < table.entries.size := by rw [size_entries accepted]; exact inside
    cases entry : table.entries[position] with
    | none => rw [Array.getElem?_eq_getElem present, entry]
    | some target =>
        have entry : table.entries[position]? = some (some target) := by
          rw [Array.getElem?_eq_getElem present, entry]
        obtain ⟨bracket, rfl | rfl, found⟩ := (linked_of_entry accepted entry).1.bracket
        · exact (notLoop (Option.some.inj (here.symm.trans found))).elim
        · exact (notClose (Option.some.inj (here.symm.trans found))).elim

/-- A program has a jump table exactly if it is balanced, and the entries are then the partners of
the brackets, in pairs that are disjoint or nested. -/
theorem ofProgram_matches_brackets (program : Bytes) :
    ((∃ table, ofProgram program = .ok table) ↔ Balanced program) ∧
      ∀ table, ofProgram program = .ok table →
        table.entries.size = program.length ∧
        (∀ position (inside : position < program.length),
          table.entries[position]? = some none ↔
            program[position] ≠ Instruction.loop.symbol ∧
              program[position] ≠ Instruction.close.symbol) ∧
        (∀ start stop : Nat, start < stop →
          (table.entries[start]? = some (some stop) ↔
            program[start]? = some Instruction.loop.symbol ∧
              program[stop]? = some Instruction.close.symbol ∧
              Balanced (program.extract (start + 1) stop))) ∧
        (∀ position : Nat, (program[position]? = some Instruction.loop.symbol ∨
            program[position]? = some Instruction.close.symbol) →
          ∃ target : Nat, target ≠ position ∧
            (program[target]? = some Instruction.loop.symbol ∨
              program[target]? = some Instruction.close.symbol) ∧
            table.entries[position]? = some (some target) ∧
            table.entries[target]? = some (some position)) ∧
        (∀ start stop : Nat, program[start]? = some Instruction.loop.symbol →
          table.entries[start]? = some (some stop) →
            start < stop ∧ program[stop]? = some Instruction.close.symbol) ∧
        ∀ start stop other last : Nat, start < stop → other < last →
          table.entries[start]? = some (some stop) → table.entries[other]? = some (some last) →
            (start = other ∧ stop = last) ∨ stop < other ∨ last < start ∨
              (start < other ∧ last < stop) ∨ (other < start ∧ stop < last) := by
  refine ⟨ofProgram_isOk_iff program, ?_⟩
  intro table accepted
  refine ⟨size_entries accepted, fun position => entry_eq_none_iff accepted, ?_, ?_, ?_, ?_⟩
  · intro start stop lt
    rw [entry_iff_partners accepted lt]
    constructor
    · rintro ⟨-, start_eq, stop_eq, balanced⟩
      exact ⟨start_eq, stop_eq, balanced⟩
    · rintro ⟨start_eq, stop_eq, balanced⟩
      exact ⟨lt, start_eq, stop_eq, balanced⟩
  · intro position here
    obtain ⟨target, entry⟩ : ∃ target, table.entries[position]? = some (some target) := by
      rcases here with here | here
      · exact exists_entry accepted (.inl rfl) here
      · exact exists_entry accepted (.inr rfl) here
    obtain ⟨linked, back⟩ := linked_of_entry accepted entry
    refine ⟨target, ?_, ?_, entry, back⟩
    · rcases linked with partners | partners <;> have := partners.start_lt <;> omega
    · obtain ⟨bracket, rfl | rfl, found⟩ := linked.symm.bracket
      · exact .inl found
      · exact .inr found
  · intro start stop here entry
    rcases (linked_of_entry accepted entry).1 with partners | partners
    · exact ⟨partners.start_lt, partners.stop_eq⟩
    · have clash := here.symm.trans partners.stop_eq
      cases clash
  · intro start stop other last start_lt other_lt first second
    exact ((entry_iff_partners accepted start_lt).mp first).laminar
      ((entry_iff_partners accepted other_lt).mp second)

/-- The brackets of a program with comments, one pair inside the other and one behind. -/
theorem ofProgram_matches_nested_brackets :
    ofProgram (text "a[[x]+]b[]") =
        .ok ⟨#[none, some 6, some 4, none, some 2, none, some 1, none, some 9, some 8]⟩ ∧
      (text "a[[x]+]b[]")[1]? = some Instruction.loop.symbol ∧
      (text "a[[x]+]b[]")[6]? = some Instruction.close.symbol ∧
      Balanced ((text "a[[x]+]b[]").extract 2 6) := by
  have accepted : ofProgram (text "a[[x]+]b[]") =
      .ok ⟨#[none, some 6, some 4, none, some 2, none, some 1, none, some 9, some 8]⟩ := rfl
  obtain ⟨-, -, paired, -⟩ := (ofProgram_matches_brackets (text "a[[x]+]b[]")).2 _ accepted
  exact ⟨accepted, (paired 1 6 (by decide)).mp rfl⟩

end JumpTable
end BitTape
