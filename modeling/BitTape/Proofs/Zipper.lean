import BitTape.Proofs.Execution
import BitTape.Proofs.ListTape

/-!
# A tape around its head

A zipper holds the cells on both sides of the head, so that the steps of a program can be followed
by looking at the ends of two lists.  An execution on a zipper is an execution on the tape that it
shows, as long as its last state is shorter than the range of a word: tapes only grow.
-/

namespace BitTape

open Memory

/-- The visited cells around the head, with the input and the output. -/
structure Zipper where
  /-- Cells to the left of the head, the nearest first. -/
  left : List Bool
  focus : Bool
  /-- Cells to the right of the head, the nearest first. -/
  right : List Bool
  /-- Number of cells that have been added on the left. -/
  grown : Nat
  input : InputBits
  output : List Bool
  deriving DecidableEq

namespace Zipper

/-- The zipper on the cell before the given ones, which may be a new one. -/
def before (left right : List Bool) (grown : Nat) (input : InputBits) (output : List Bool) :
    Zipper :=
  match left with
  | [] => ⟨[], false, right, grown + 1, input, output⟩
  | bit :: left => ⟨left, bit, right, grown, input, output⟩

/-- The zipper on the first of the given cells, or on a new cell behind the tape. -/
def onto (left cells : List Bool) (grown : Nat) (input : InputBits) (output : List Bool) : Zipper :=
  match cells with
  | [] => ⟨left, false, [], grown, input, output⟩
  | bit :: right => ⟨left, bit, right, grown, input, output⟩

def moveLeft (zipper : Zipper) : Zipper :=
  before zipper.left (zipper.focus :: zipper.right) zipper.grown zipper.input zipper.output

def moveRight (zipper : Zipper) : Zipper :=
  onto (zipper.focus :: zipper.left) zipper.right zipper.grown zipper.input zipper.output

/-- The zipper after an action. -/
def perform (zipper : Zipper) : Action → Zipper
  | .flip => { zipper with focus := !zipper.focus }
  | .read => { zipper with focus := zipper.input.next.1, input := zipper.input.next.2 }
  | .write => { zipper with output := zipper.output ++ [zipper.focus] }
  | .left => zipper.moveLeft
  | .right => zipper.moveRight
  | .comment _ _ => zipper

instance : Memory Zipper where
  perform action zipper := zipper.perform action
  bit := focus
  look zipper := zipper

/-- The cells of a zipper as one list. -/
def list (zipper : Zipper) : ListTape :=
  { cells := zipper.left.reverse ++ zipper.focus :: zipper.right, index := zipper.left.length }

def length (zipper : Zipper) : Nat :=
  zipper.left.length + zipper.right.length + 1

theorem length_list (zipper : Zipper) : zipper.list.cells.length = zipper.length := by
  simp only [list, length, List.length_append, List.length_reverse, List.length_cons]
  omega

@[simp]
theorem bit_list (zipper : Zipper) : zipper.list.bit = zipper.focus := by
  simp [list, ListTape.bit]

theorem list_moveLeft (zipper : Zipper) : zipper.moveLeft.list = zipper.list.left := by
  obtain ⟨left, focus, right, grown, input, output⟩ := zipper
  cases left with
  | nil => rfl
  | cons bit left => simp [moveLeft, before, list, ListTape.left]

theorem list_moveRight (zipper : Zipper) : zipper.moveRight.list = zipper.list.right := by
  obtain ⟨left, focus, right, grown, input, output⟩ := zipper
  cases right <;> simp [moveRight, onto, list, ListTape.right]

/-- Position of the head relative to the first cell. -/
def position (zipper : Zipper) : Int :=
  zipper.left.length - zipper.grown

theorem position_moveLeft (zipper : Zipper) :
    zipper.moveLeft.position = zipper.position - 1 := by
  obtain ⟨left, focus, right, grown, input, output⟩ := zipper
  cases left with
  | nil =>
      simp only [moveLeft, before, position, List.length_nil]
      omega
  | cons bit left =>
      simp only [moveLeft, before, position, List.length_cons]
      omega

theorem position_moveRight (zipper : Zipper) :
    zipper.moveRight.position = zipper.position + 1 := by
  obtain ⟨left, focus, right, grown, input, output⟩ := zipper
  cases right with
  | nil =>
      simp only [moveRight, onto, position, List.length_cons]
      omega
  | cons bit right =>
      simp only [moveRight, onto, position, List.length_cons]
      omega

@[simp]
theorem input_moveLeft (zipper : Zipper) : zipper.moveLeft.input = zipper.input := by
  obtain ⟨left, focus, right, grown, input, output⟩ := zipper
  cases left <;> rfl

@[simp]
theorem output_moveLeft (zipper : Zipper) : zipper.moveLeft.output = zipper.output := by
  obtain ⟨left, focus, right, grown, input, output⟩ := zipper
  cases left <;> rfl

@[simp]
theorem input_moveRight (zipper : Zipper) : zipper.moveRight.input = zipper.input := by
  obtain ⟨left, focus, right, grown, input, output⟩ := zipper
  cases right <;> rfl

@[simp]
theorem output_moveRight (zipper : Zipper) : zipper.moveRight.output = zipper.output := by
  obtain ⟨left, focus, right, grown, input, output⟩ := zipper
  cases right <;> rfl

theorem list_write (zipper : Zipper) (bit : Bool) :
    { zipper with focus := bit }.list = zipper.list.write bit := by
  simp [list, ListTape.write]

/-- The zipper has the visited cells of a store. -/
structure Shows (zipper : Zipper) (store : Store) : Prop where
  tape_shows : zipper.list.Shows store.tape store.head
  head_eq : store.head.toInt = zipper.position
  input_eq : store.input = zipper.input
  output_eq : store.output.toList = zipper.output

theorem length_perform (zipper : Zipper) (action : Action) :
    zipper.length ≤ (zipper.perform action).length := by
  obtain ⟨left, focus, right, grown, input, output⟩ := zipper
  cases action with
  | left =>
      cases left with
      | nil =>
          simp only [perform, moveLeft, before, length, List.length_cons]
          omega
      | cons bit left =>
          simp only [perform, moveLeft, before, length, List.length_cons]
          omega
  | right =>
      cases right with
      | nil =>
          simp only [perform, moveRight, onto, length, List.length_cons]
          omega
      | cons bit right =>
          simp only [perform, moveRight, onto, length, List.length_cons]
          omega
  | _ => exact Nat.le_refl _

theorem length_le_of_executes {tree : Tree} {before after : Zipper}
    (execution : tree.Executes before after) : before.length ≤ after.length := by
  induction execution with
  | nil => exact Nat.le_refl _
  | act _ ih => exact Nat.le_trans (length_perform ..) ih
  | leave _ _ ih => exact ih
  | again _ _ _ body rest => exact Nat.le_trans body rest

theorem Shows.perform {zipper : Zipper} {store : Store} (shows : zipper.Shows store)
    (action : Action) (short : zipper.length < 2 ^ 63 - 1) :
    (zipper.perform action).Shows (store.perform action) := by
  rw [← length_list] at short
  obtain ⟨tape_shows, head_eq, input_eq, output_eq⟩ := shows
  cases action with
  | flip =>
      refine ⟨?_, head_eq, input_eq, output_eq⟩
      rw [Zipper.perform, list_write, ← bit_list]
      exact tape_shows.flip
  | read =>
      refine ⟨?_, head_eq, congrArg (fun input => input.next.2) input_eq, output_eq⟩
      rw [Store.perform, Zipper.perform, input_eq]
      exact (list_write zipper _).symm ▸ tape_shows.write _
  | write =>
      refine ⟨tape_shows.visit, head_eq, input_eq, ?_⟩
      simp [Store.perform, Zipper.perform, output_eq, tape_shows.cell_head]
  | left =>
      refine ⟨?_, ?_, input_eq.trans zipper.input_moveLeft.symm,
        output_eq.trans zipper.output_moveLeft.symm⟩
      · rw [Zipper.perform, list_moveLeft]
        exact tape_shows.left short
      · rw [Zipper.perform, position_moveLeft, ← head_eq]
        exact tape_shows.toInt_head_sub short
  | right =>
      refine ⟨?_, ?_, input_eq.trans zipper.input_moveRight.symm,
        output_eq.trans zipper.output_moveRight.symm⟩
      · rw [Zipper.perform, list_moveRight]
        exact tape_shows.right short
      · rw [Zipper.perform, position_moveRight, ← head_eq]
        exact tape_shows.toInt_head_add short
  | comment byte plain => exact ⟨tape_shows, head_eq, input_eq, output_eq⟩

theorem Shows.look {zipper : Zipper} {store : Store} (shows : zipper.Shows store) :
    zipper.Shows store.look :=
  ⟨shows.tape_shows.visit, shows.head_eq, shows.input_eq, shows.output_eq⟩

theorem Shows.bit_eq {zipper : Zipper} {store : Store} (shows : zipper.Shows store) :
    store.bit = zipper.focus := by
  rw [Store.bit, shows.tape_shows.cell_head, bit_list]

/-- An execution on a zipper is one on the store that it shows. -/
theorem Shows.executes {tree : Tree} {before after : Zipper} {store : Store}
    (execution : tree.Executes before after) (short : after.length < 2 ^ 63 - 1)
    (shows : before.Shows store) :
    ∃ last : Store, tree.Executes store last ∧ after.Shows last := by
  induction execution generalizing store with
  | nil => exact ⟨store, .nil store, shows⟩
  | @act action rest before after execution ih =>
      have length_le : before.length ≤ after.length :=
        Nat.le_trans (length_perform before action) (length_le_of_executes execution)
      obtain ⟨last, executed, shown⟩ := ih short (shows.perform action (by omega))
      exact ⟨last, .act executed, shown⟩
  | leave isZero _ ih =>
      obtain ⟨last, executed, shown⟩ := ih short shows.look
      exact ⟨last, .leave (shows.bit_eq.trans isZero) executed, shown⟩
  | again isOne _ rest bodyShown restShown =>
      have length_le := length_le_of_executes rest
      obtain ⟨middle, bodyExecuted, shown⟩ := bodyShown (by omega) shows.look
      obtain ⟨last, executed, shown⟩ := restShown short shown
      exact ⟨last, .again (shows.bit_eq.trans isOne) bodyExecuted executed, shown⟩

end Zipper
end BitTape
