import BitTape.Proofs.Matching
import Mathlib.Order.Bounds.Basic

/-!
# Mismatched brackets

Which bracket a scan reports.  What a scan has read falls into balanced parts with the open loops
between them (`Opened`), so the bracket that it reports stands behind a balanced front, and is
either an end, or a loop behind which no end is left over (`Stray`).  Counting open loops then shows
that it has no partner, and that every bracket before it has one.
-/

namespace BitTape

/-- No front of a program ends more loops than it starts. -/
def Nested (program : Bytes) : Prop :=
  ∀ front, front <+: program →
    front.count Instruction.close.symbol ≤ front.count Instruction.loop.symbol

/-! ## Putting balanced parts together -/

theorem Nested.append {front back : Bytes} (nested : Nested front) (nestedToo : Nested back) :
    Nested (front ++ back) := by
  intro part isPart
  rcases List.prefix_or_prefix_of_prefix isPart (List.prefix_append front back) with
    short | ⟨rest, rfl⟩
  · exact nested part short
  · have bounded := nested front List.prefix_rfl
    have restBounded := nestedToo rest ((List.prefix_append_right_inj front).mp isPart)
    simp only [List.count_append]
    omega

theorem nested_loop : Nested [Instruction.loop.symbol] := by
  intro part isPart
  rcases List.prefix_cons_iff.mp isPart with rfl | ⟨rest, rfl, isRest⟩
  · exact Nat.le_refl 0
  · rw [List.prefix_nil.mp isRest]
    exact Nat.zero_le 1

namespace Balanced

theorem append {front back : Bytes} (balanced : Balanced front) (balancedToo : Balanced back) :
    Balanced (front ++ back) where
  nested := Nested.append balanced.nested balancedToo.nested
  closed := by rw [List.count_append, List.count_append, balanced.closed, balancedToo.closed]

theorem exists_tree {program : Bytes} (balanced : Balanced program) :
    ∃ tree : Tree, tree.flatten = program := by
  obtain ⟨table, accepted⟩ := (JumpTable.ofProgram_isOk_iff program).mpr balanced
  obtain ⟨tree, spelled, -⟩ := JumpTable.ofProgram_eq_ok_iff.mp accepted
  exact ⟨tree, spelled⟩

theorem enclose {body : Bytes} (balanced : Balanced body) :
    Balanced (Instruction.loop.symbol :: (body ++ [Instruction.close.symbol])) := by
  obtain ⟨tree, rfl⟩ := balanced.exists_tree
  exact (Tree.loop tree .nil).balanced_flatten

end Balanced

/-! ## What a scan has read -/

/-- A program that leaves loops open at some positions, the innermost first, and is balanced
otherwise. -/
inductive Opened : Bytes → List Nat → Prop where
  | outside {front : Bytes} (balanced : Balanced front) : Opened front []
  | inside {front body : Bytes} {opened : List Nat} (outer : Opened front opened)
      (balanced : Balanced body) :
      Opened (front ++ Instruction.loop.symbol :: body) (front.length :: opened)

namespace Opened

theorem append {front back : Bytes} {opened : List Nat} (read : Opened front opened)
    (balanced : Balanced back) : Opened (front ++ back) opened := by
  cases read with
  | outside before => exact .outside (before.append balanced)
  | inside outer body =>
      rw [List.append_assoc, List.cons_append]
      exact .inside outer (body.append balanced)

theorem loop {front : Bytes} {opened : List Nat} (read : Opened front opened) :
    Opened (front ++ [Instruction.loop.symbol]) (front.length :: opened) :=
  .inside read Tree.nil.balanced_flatten

theorem close {front : Bytes} {partner : Nat} {opened : List Nat}
    (read : Opened front (partner :: opened)) :
    Opened (front ++ [Instruction.close.symbol]) opened := by
  cases read with
  | inside outer body =>
      rw [List.append_assoc, List.cons_append]
      exact outer.append body.enclose

end Opened

/-- A bracket without a partner behind a balanced front: an end, or a loop behind which no front
ends more loops than it starts. -/
inductive Stray : Bytes → Nat → Prop where
  | close {front : Bytes} (balanced : Balanced front) (rest : Bytes) :
      Stray (front ++ Instruction.close.symbol :: rest) front.length
  | loop {front rest : Bytes} (balanced : Balanced front) (nested : Nested rest) :
      Stray (front ++ Instruction.loop.symbol :: rest) front.length

theorem Stray.append {program back : Bytes} {position : Nat} (stray : Stray program position)
    (nestedToo : Nested back) : Stray (program ++ back) position := by
  cases stray with
  | close balanced rest =>
      rw [List.append_assoc, List.cons_append]
      exact .close balanced (rest ++ back)
  | loop balanced nested =>
      rw [List.append_assoc, List.cons_append]
      exact .loop balanced (nested.append nestedToo)

/-- The outermost of the open loops is stray. -/
theorem Opened.stray_getLast {program : Bytes} {opened : List Nat} (read : Opened program opened)
    (nonempty : opened ≠ []) : Stray program (opened.getLast nonempty) := by
  induction read with
  | outside balanced => exact absurd rfl nonempty
  | @inside front body outerOpened outer balanced ih =>
      cases outerOpened with
      | nil =>
          cases outer with
          | outside before => exact .loop before balanced.nested
      | cons partner others =>
          rw [List.getLast_cons (List.cons_ne_nil partner others)]
          apply Stray.append (ih _)
          exact nested_loop.append balanced.nested

namespace JumpTable

/-- A scan that fails reports a stray bracket. -/
theorem stray_of_scan {front rest : Bytes} {opened : List Nat} {entries : Array (Option Nat)}
    {position : Nat} (read : Opened front opened) (size_eq : entries.size = front.length)
    (failed : scan rest opened entries = .error ⟨position⟩) : Stray (front ++ rest) position := by
  induction rest generalizing front opened entries with
  | nil =>
      cases opened with
      | nil => simp [scan] at failed
      | cons innermost outer =>
          obtain rfl : (innermost :: outer).getLast (by simp) = position := by
            simpa [scan] using failed
          simpa using read.stray_getLast (by simp)
  | cons byte rest ih =>
      rw [List.append_cons]
      obtain ⟨action, rfl⟩ | rfl | rfl := Action.byte_cases byte
      · rw [scan_act] at failed
        apply ih (read.append (Tree.act action .nil).balanced_flatten) _ failed
        simp [size_eq, Tree.flatten]
      · rw [scan_loop, size_eq] at failed
        apply ih read.loop _ failed
        simp [size_eq]
      · cases opened with
        | nil =>
            obtain rfl : entries.size = position := by
              simpa [scan_close_nil] using failed
            cases read with
            | outside balanced =>
                rw [← List.append_cons, size_eq]
                exact .close balanced rest
        | cons partner outer =>
            rw [scan_close_cons] at failed
            apply ih read.close _ failed
            simp [size_eq]

theorem stray_of_ofProgram {program : Bytes} {position : Nat}
    (failed : ofProgram program = .error ⟨position⟩) : Stray program position :=
  stray_of_scan (.outside Tree.nil.balanced_flatten) rfl failed

end JumpTable

/-! ## Depths around a stray bracket -/

theorem Nested.depth_nonneg {program : Bytes} (nested : Nested program) (position : Nat) :
    0 ≤ depth program position := by
  have bounded := nested _ (List.take_prefix position program)
  rw [depth]
  omega

theorem depth_append_left (front back : Bytes) {position : Nat} (inside : position ≤ front.length) :
    depth (front ++ back) position = depth front position := by
  rw [depth, depth, List.take_append_of_le_length inside]

theorem depth_append_right (front back : Bytes) (position : Nat) :
    depth (front ++ back) (front.length + position) =
      depth front front.length + depth back position := by
  simp only [depth, List.take_length_add_append, List.count_append, List.take_length]
  omega

theorem Balanced.depth_length {program : Bytes} (balanced : Balanced program) :
    depth program program.length = 0 := by
  rw [depth, List.take_length, balanced.closed]
  omega

section Front

variable {front : Bytes} (balanced : Balanced front) (rest : Bytes)

include balanced

theorem depth_front_nonneg {position : Nat} (inside : position ≤ front.length) :
    0 ≤ depth (front ++ rest) position := by
  rw [depth_append_left front rest inside]
  exact Nested.depth_nonneg balanced.nested position

theorem depth_front_length : depth (front ++ rest) front.length = 0 := by
  rw [depth_append_left front rest (Nat.le_refl _), balanced.depth_length]

theorem exists_linked_of_front {bracket : Instruction}
    (isBracket : bracket = .loop ∨ bracket = .close) {position : Nat}
    (inside : position < front.length)
    (here : (front ++ rest)[position]? = some bracket.symbol) :
    ∃ target, Linked (front ++ rest) position target := by
  rw [List.getElem?_append_left inside] at here
  obtain ⟨table, accepted⟩ := (JumpTable.ofProgram_isOk_iff front).mpr balanced
  obtain ⟨target, entry⟩ := JumpTable.exists_entry accepted isBracket here
  have linked := (JumpTable.linked_of_entry accepted entry).1
  exact ⟨target, by simpa using linked.within [] rest⟩

theorem exists_stop_of_front {position : Nat} (inside : position < front.length)
    (here : (front ++ rest)[position]? = some Instruction.loop.symbol) :
    ∃ stop, Partners (front ++ rest) position stop := by
  obtain ⟨target, partners | partners⟩ :=
    exists_linked_of_front balanced rest (.inl rfl) inside here
  · exact ⟨target, partners⟩
  · have clash := here.symm.trans partners.stop_eq
    cases clash

theorem exists_start_of_front {position : Nat} (inside : position < front.length)
    (here : (front ++ rest)[position]? = some Instruction.close.symbol) :
    ∃ start, Partners (front ++ rest) start position := by
  obtain ⟨target, partners | partners⟩ :=
    exists_linked_of_front balanced rest (.inr rfl) inside here
  · have clash := here.symm.trans partners.start_eq
    cases clash
  · exact ⟨target, partners⟩

end Front

/-- Behind a balanced front and a loop the depth stays positive. -/
theorem depth_pos_behind_loop {front rest : Bytes} (balanced : Balanced front)
    (nested : Nested rest) (position : Nat) (behind : front.length < position) :
    0 < depth (front ++ Instruction.loop.symbol :: rest) position := by
  obtain ⟨offset, rfl⟩ := Nat.exists_eq_add_of_lt behind
  have started : depth [Instruction.loop.symbol] [Instruction.loop.symbol].length = 1 := rfl
  have split := depth_append_right [Instruction.loop.symbol] rest offset
  have nonneg := nested.depth_nonneg offset
  rw [Nat.add_assoc, depth_append_right, balanced.depth_length, Nat.add_comm offset]
  rw [started, List.singleton_append, List.length_singleton] at split
  omega

/-! ## The first bracket without a partner -/

/-- The front up to the end of a loop that was not started is the first with too many ends. -/
theorem isLeast_overdrawn {front : Bytes} (balanced : Balanced front) (rest : Bytes) :
    IsLeast
      {length | ((front ++ Instruction.close.symbol :: rest).take length).count
          Instruction.loop.symbol <
        ((front ++ Instruction.close.symbol :: rest).take length).count
          Instruction.close.symbol}
      (front.length + 1) := by
  have here : (front ++ Instruction.close.symbol :: rest)[front.length]? =
      some Instruction.close.symbol := by
    simp
  constructor
  · have falls := depth_succ_of_close here
    rw [depth_front_length balanced, depth] at falls
    rw [Set.mem_ofPred_eq]
    omega
  · intro length overdrawn
    rw [Set.mem_ofPred_eq] at overdrawn
    apply Nat.le_of_not_lt
    intro shorter
    have nonneg := depth_front_nonneg balanced (Instruction.close.symbol :: rest)
      (Nat.le_of_lt_succ shorter)
    rw [depth] at nonneg
    omega

theorem isLeast_unstarted {front : Bytes} (balanced : Balanced front) (rest : Bytes) :
    IsLeast
      {position | (front ++ Instruction.close.symbol :: rest)[position]? =
          some Instruction.close.symbol ∧
        ∀ start, ¬Partners (front ++ Instruction.close.symbol :: rest) start position}
      front.length := by
  constructor
  · refine ⟨by simp, ?_⟩
    intro start partners
    have risen := partners.depth_stop
    have nonneg := depth_front_nonneg balanced (Instruction.close.symbol :: rest)
      (Nat.le_of_lt partners.start_lt)
    rw [depth_front_length balanced] at risen
    omega
  · rintro position ⟨here, alone⟩
    apply Nat.le_of_not_lt
    intro inside
    obtain ⟨start, partners⟩ := exists_start_of_front balanced _ inside here
    exact alone start partners

theorem isLeast_unclosed {front rest : Bytes} (balanced : Balanced front) (nested : Nested rest) :
    IsLeast
      {position | (front ++ Instruction.loop.symbol :: rest)[position]? =
          some Instruction.loop.symbol ∧
        ∀ stop, ¬Partners (front ++ Instruction.loop.symbol :: rest) position stop}
      front.length := by
  constructor
  · refine ⟨by simp, ?_⟩
    intro stop partners
    have fallen := partners.depth_behind
    have positive := depth_pos_behind_loop balanced nested (stop + 1)
      (Nat.lt_add_right 1 partners.start_lt)
    rw [depth_front_length balanced] at fallen
    omega
  · rintro position ⟨here, alone⟩
    apply Nat.le_of_not_lt
    intro inside
    obtain ⟨stop, partners⟩ := exists_stop_of_front balanced _ inside here
    exact alone stop partners

namespace JumpTable

/-- An unbalanced program is reported at the first end that has no loop, if a front ends more loops
than it starts, and else at the first loop that has no end. -/
theorem ofProgram_reports_first_stray {program : Bytes} (unbalanced : ¬Balanced program) :
    ∃ bracket : Mismatch, ofProgram program = .error bracket ∧
      ((∃ front, front <+: program ∧
          front.count Instruction.loop.symbol < front.count Instruction.close.symbol) →
        IsLeast
            {length | (program.take length).count Instruction.loop.symbol <
              (program.take length).count Instruction.close.symbol}
            (bracket.position + 1) ∧
          IsLeast
            {position | program[position]? = some Instruction.close.symbol ∧
              ∀ start, ¬Partners program start position}
            bracket.position) ∧
      ((∀ front, front <+: program →
          front.count Instruction.close.symbol ≤ front.count Instruction.loop.symbol) →
        IsLeast
          {position | program[position]? = some Instruction.loop.symbol ∧
            ∀ stop, ¬Partners program position stop}
          bracket.position) := by
  cases answer : ofProgram program with
  | ok table => exact absurd ((ofProgram_isOk_iff program).mp ⟨table, answer⟩) unbalanced
  | error bracket =>
      refine ⟨bracket, rfl, ?_⟩
      obtain ⟨position⟩ := bracket
      cases stray_of_ofProgram answer with
      | @close front balanced rest =>
          refine ⟨fun _ => ⟨isLeast_overdrawn balanced rest, isLeast_unstarted balanced rest⟩, ?_⟩
          intro nested
          have overdrawn := (isLeast_overdrawn balanced rest).1
          have bounded := nested _ (List.take_prefix (front.length + 1) _)
          rw [Set.mem_ofPred_eq] at overdrawn
          omega
      | @loop front rest balanced nested =>
          refine ⟨?_, fun _ => isLeast_unclosed balanced nested⟩
          rintro ⟨part, isPart, overdrawn⟩
          have bounded := Nested.append balanced.nested (nested_loop.append nested) part isPart
          omega

/-- An end without a loop is reported although a loop behind it has no end either. -/
theorem ofProgram_reports_end_before_loop :
    ¬Balanced (text "[x]]+[") ∧ ofProgram (text "[x]]+[") = .error ⟨3⟩ ∧
      IsLeast
        {position | (text "[x]]+[")[position]? = some Instruction.close.symbol ∧
          ∀ start, ¬Partners (text "[x]]+[") start position}
        3 := by
  have unbalanced : ¬Balanced (text "[x]]+[") := by decide
  have failed : ofProgram (text "[x]]+[") = .error ⟨3⟩ := rfl
  obtain ⟨bracket, reported, overdrawn, -⟩ := ofProgram_reports_first_stray unbalanced
  obtain rfl : (⟨3⟩ : Mismatch) = bracket := Except.error.inj (failed.symm.trans reported)
  exact ⟨unbalanced, failed, (overdrawn ⟨text "[x]]", ⟨text "+[", rfl⟩, by decide⟩).2⟩

end JumpTable
end BitTape
