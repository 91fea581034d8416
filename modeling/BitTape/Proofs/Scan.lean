import BitTape.Proofs.Zipper

/-!
# Lines and scans

A line of actions is executed one by one.  Marching moves the head over known cells.  A scan is a
loop that moves over one cells until it meets a zero, rewriting the cells it passes; all loops that
look for the end of a run of bits are scans to the left or to the right.
-/

namespace BitTape

open Memory

namespace Tree

/-- A tree without loops. -/
def line : List Action → Tree
  | [] => nil
  | action :: actions => act action (line actions)

instance : Append Tree :=
  ⟨append⟩

theorem Executes.seq {σ : Type} [Memory σ] {front back : Tree} {before middle after : σ}
    (first : front.Executes before middle) (second : back.Executes middle after) :
    (front ++ back).Executes before after :=
  first.append second

theorem line_executes {σ : Type} [Memory σ] (actions : List Action) (state : σ) :
    (line actions).Executes state
      (actions.foldl (fun state action => perform action state) state) := by
  induction actions generalizing state with
  | nil => exact .nil state
  | cons action actions ih => exact .act (ih (perform action state))

end Tree

namespace Zipper

open BitTape.Tree

variable {left right : List Bool} {grown : Nat} {input : InputBits} {output : List Bool}

theorem march_left (cells : List Bool) (focus : Bool) :
    (line (List.replicate cells.length .left)).Executes
      (before (cells ++ focus :: left) right grown input output)
      ⟨left, focus, cells.reverse ++ right, grown, input, output⟩ := by
  induction cells generalizing right with
  | nil => exact .nil _
  | cons cell cells ih =>
      rw [List.reverse_cons, List.append_assoc]
      exact .act ih

theorem march_right (cells : List Bool) (focus : Bool) :
    (line (List.replicate cells.length .right)).Executes
      ⟨left, focus, cells ++ right, grown, input, output⟩
      (before (cells.reverse ++ focus :: left) right grown input output) := by
  induction cells generalizing focus left with
  | nil => exact .nil _
  | cons cell cells ih =>
      rw [List.reverse_cons, List.append_assoc]
      exact .act (ih cell)

/-- March to the right over cells and write each of them. -/
theorem write_right (cells : List Bool) (focus : Bool) :
    (line (List.replicate cells.length [.right, .write]).flatten).Executes
      ⟨left, focus, cells ++ right, grown, input, output⟩
      (before (cells.reverse ++ focus :: left) right grown input (output ++ cells)) := by
  induction cells generalizing focus left output with
  | nil =>
      rw [List.append_nil]
      exact .nil _
  | cons cell cells ih =>
      rw [List.reverse_cons, List.append_assoc, List.append_cons output]
      exact .act (.act (ih cell))

theorem replicate_succ_append (count : Nat) (bit : Bool) (cells : List Bool) :
    List.replicate (count + 1) bit ++ cells = List.replicate count bit ++ bit :: cells := by
  rw [List.replicate_succ', List.append_assoc]
  rfl

/-- A scan to the left over one cells, each of which becomes `mark`, up to the zero cell before
them. -/
theorem scan_left {body : Tree} {mark : Bool}
    (pass : ∀ left right grown, body.Executes ⟨left, true, right, grown, input, output⟩
      (before left (mark :: right) grown input output))
    (guarded : left.headD false = false) (count : Nat) :
    (loop body nil).Executes
      (before (List.replicate count true ++ left) right grown input output)
      (before left (List.replicate count mark ++ right) grown input output) := by
  induction count generalizing right with
  | zero =>
      refine .leave ?_ (.nil _)
      cases left with
      | nil => rfl
      | cons bit left => exact guarded
  | succ count ih =>
      rw [replicate_succ_append count mark]
      exact .again rfl (pass ..) ih

/-- A scan to the right over cells with the bit `mark`, each of which becomes a one, up to the first
cell with the other bit, which becomes a zero. -/
theorem scan_right {body : Tree} {mark : Bool}
    (pass : ∀ left cell right, body.Executes
      (⟨left, true, cell :: right, grown, input, output⟩ : Zipper)
      ⟨true :: left, cell == mark, right, grown, input, output⟩) (count : Nat) :
    (loop body nil).Executes
      (⟨left, true, List.replicate count mark ++ (!mark) :: right, grown, input, output⟩ : Zipper)
      ⟨List.replicate (count + 1) true ++ left, false, right, grown, input, output⟩ := by
  have opposite : ((!mark) == mark) = false := by cases mark <;> rfl
  induction count generalizing left with
  | zero =>
      have passed := pass left (!mark) right
      rw [opposite] at passed
      exact .again rfl passed (.leave rfl (.nil _))
  | succ count ih =>
      have passed := pass left mark (List.replicate count mark ++ (!mark) :: right)
      rw [beq_self_eq_true] at passed
      rw [replicate_succ_append (count + 1)]
      exact .again rfl passed ih

end Zipper
end BitTape
