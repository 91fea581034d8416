import BitTape.Proofs.Instructions

/-!
# Trees in a program

`Tree.Laid` says that a tree stands in a program from a position on, with all its brackets linked
in the jump table.  The tree of a program that has a jump table is laid from its start, so every
bracket of such a program has a target inside the program.
-/

namespace BitTape
namespace Tree

/-- The tree stands in the code from a position on, and its brackets are linked. -/
def Laid (code : Array UInt8) (jumps : JumpTable) : Tree → (position : Nat) → Prop
  | nil, _ => True
  | act action rest, position =>
      code[position]? = some action.symbol ∧ rest.Laid code jumps (position + 1)
  | loop body rest, position =>
      code[position]? = some Instruction.loop.symbol ∧
        jumps.target? position = some (position + body.size + 1) ∧
        body.Laid code jumps (position + 1) ∧
        code[position + body.size + 1]? = some Instruction.close.symbol ∧
        jumps.target? (position + body.size + 1 : Nat) = some position ∧
        rest.Laid code jumps (position + body.size + 2)

private theorem drop_cons_front {α : Type} {first : α} {rest list : List α} {position : Nat}
    (front : first :: rest <+: list.drop position) :
    list[position]? = some first ∧ rest <+: list.drop (position + 1) := by
  obtain ⟨back, split⟩ := front
  constructor
  · have head := congrArg (fun found : List α => found[0]?) split
    simpa using head.symm
  · refine ⟨back, ?_⟩
    have tail := congrArg List.tail split
    simpa using tail

private theorem drop_append_front {α : Type} {first second list : List α} {position : Nat}
    (front : first ++ second <+: list.drop position) :
    first <+: list.drop position ∧ second <+: list.drop (position + first.length) := by
  obtain ⟨back, split⟩ := front
  constructor
  · exact ⟨second ++ back, by rw [← split, List.append_assoc]⟩
  · refine ⟨back, ?_⟩
    have tail := congrArg (List.drop first.length) split
    simpa [List.append_assoc] using tail

private theorem target?_of_getElem? {jumps : JumpTable} {position target : Nat}
    (entry : jumps.entries.toList[position]? = some (some target)) :
    jumps.target? position = some target := by
  rw [Array.getElem?_toList] at entry
  simp [JumpTable.target?, entry]

/-- A tree is laid where its spelling stands in the code and its links stand in the table. -/
theorem laid_of_front {code : Array UInt8} {jumps : JumpTable} {tree : Tree} {position : Nat}
    (spelled : tree.flatten <+: code.toList.drop position)
    (linked : tree.links position <+: jumps.entries.toList.drop position) :
    tree.Laid code jumps position := by
  induction tree generalizing position with
  | nil => trivial
  | act action rest ih =>
      obtain ⟨here, spelled⟩ := drop_cons_front spelled
      obtain ⟨_, linked⟩ := drop_cons_front linked
      exact ⟨by simpa using here, ih spelled linked⟩
  | loop body rest bodyLaid restLaid =>
      obtain ⟨start, spelled⟩ := drop_cons_front spelled
      obtain ⟨bodySpelled, spelled⟩ := drop_append_front spelled
      obtain ⟨stop, restSpelled⟩ := drop_cons_front spelled
      obtain ⟨startLink, linked⟩ := drop_cons_front linked
      obtain ⟨bodyLinked, linked⟩ := drop_append_front linked
      obtain ⟨stopLink, restLinked⟩ := drop_cons_front linked
      rw [length_links] at stopLink restLinked
      have last : position + 1 + body.size = position + body.size + 1 := by omega
      have behind : position + 1 + body.size + 1 = position + body.size + 2 := by omega
      rw [← size, last, Array.getElem?_toList] at stop
      rw [← size, behind] at restSpelled
      rw [last] at stopLink
      rw [behind] at restLinked
      exact ⟨by simpa using start, target?_of_getElem? startLink, bodyLaid bodySpelled bodyLinked,
        stop, target?_of_getElem? stopLink, restLaid restSpelled restLinked⟩

/-- The tree of a program is laid from its start in the table of the program. -/
theorem laid_of_ofProgram {program : Bytes} {jumps : JumpTable} {tree : Tree}
    (accepted : JumpTable.ofProgram program = .ok jumps) (spelled : tree.flatten = program) :
    tree.Laid program.toArray jumps 0 := by
  obtain ⟨other, sameProgram, rfl⟩ := JumpTable.ofProgram_eq_ok_iff.mp accepted
  obtain rfl := flatten_injective (spelled.trans sameProgram.symm)
  apply laid_of_front
  · simp [spelled]
  · simp

/-- Every bracket of a laid tree has a target inside the tree. -/
theorem Laid.exists_target {code : Array UInt8} {jumps : JumpTable} {tree : Tree} {position : Nat}
    (laid : tree.Laid code jumps position) {bracket : Instruction}
    (isBracket : bracket = .loop ∨ bracket = .close) {offset : Nat}
    (here : tree.flatten[offset]? = some bracket.symbol) :
    ∃ target, jumps.target? (position + offset : Nat) = some target ∧
      target < position + tree.size := by
  induction tree generalizing position offset with
  | nil => simp [flatten] at here
  | act action rest ih =>
      cases offset with
      | zero =>
          have same : action.symbol = bracket.symbol := by simpa [flatten] using here
          have noBracket := action.instruction_symbol_ne bracket isBracket
          rw [same, Instruction.ofByte?_symbol] at noBracket
          exact absurd rfl noBracket
      | succ offset =>
          obtain ⟨target, linked, inside⟩ := ih laid.2 (by simpa [flatten] using here)
          refine ⟨target, ?_, by simp; omega⟩
          rw [show position + (offset + 1) = position + 1 + offset by omega]
          exact linked
  | loop body rest bodyTarget restTarget =>
      obtain ⟨_, startLink, bodyLaid, _, stopLink, restLaid⟩ := laid
      cases offset with
      | zero => exact ⟨_, startLink, by simp; omega⟩
      | succ offset =>
          rw [flatten, List.getElem?_cons_succ, List.getElem?_append] at here
          split at here
          · rename_i inBody
            obtain ⟨target, linked, inside⟩ := bodyTarget bodyLaid here
            refine ⟨target, ?_, by simp; omega⟩
            rw [show position + (offset + 1) = position + 1 + offset by omega]
            exact linked
          · rename_i behindBody
            rw [← size] at here behindBody
            cases behind : offset - body.size with
            | zero =>
                refine ⟨position, ?_, by simp⟩
                rw [show position + (offset + 1) = position + body.size + 1 by omega]
                exact stopLink
            | succ later =>
                rw [behind, List.getElem?_cons_succ] at here
                obtain ⟨target, linked, inside⟩ := restTarget restLaid here
                refine ⟨target, ?_, by simp; omega⟩
                rw [show position + (offset + 1) = position + body.size + 2 + later by omega]
                exact linked

end Tree
end BitTape
