import BitTape.Machine
import BitTape.Proofs.Tree

/-!
# Structured execution

A tree of commands is executed without a program counter: `Tree.Executes` says in which state a tree
ends, if it ends at all.  It works over any kind of state on which actions can be performed.  A
`Store` holds what a machine changes besides its counters; its `Contents` are the bits of its cells
without the extent of its tape.
-/

namespace BitTape

/-- A kind of state on which commands act. -/
class Memory (σ : Type) where
  perform : Action → σ → σ
  bit : σ → Bool
  /-- The state after a look at the bit under the head. -/
  look : σ → σ

open Memory

/-- Big-step execution of a tree: a loop runs its body while the bit under the head is one. -/
inductive Tree.Executes {σ : Type} [Memory σ] : Tree → σ → σ → Prop where
  | nil (state : σ) : Executes .nil state state
  | act {action : Action} {rest : Tree} {before after : σ} :
      Executes rest (perform action before) after → Executes (.act action rest) before after
  | leave {body rest : Tree} {before after : σ} :
      bit before = false → Executes rest (look before) after →
        Executes (.loop body rest) before after
  | again {body rest : Tree} {before middle after : σ} :
      bit before = true → Executes body (look before) middle →
        Executes (.loop body rest) middle after → Executes (.loop body rest) before after

theorem Tree.Executes.append {σ : Type} [Memory σ] {front back : Tree} {before middle after : σ}
    (first : front.Executes before middle) (second : back.Executes middle after) :
    (front.append back).Executes before after := by
  induction first with
  | nil => exact second
  | act _ ih => exact .act (ih second)
  | leave isZero _ ih => exact .leave isZero (ih second)
  | again isOne body _ _ ih => exact .again isOne body (ih second)

/-- What a run changes besides the counters of the machine. -/
structure Store where
  tape : Tape
  head : Int64
  input : InputBits
  output : Array Bool
  deriving DecidableEq

namespace Store

/-- The store after an action. -/
def perform (store : Store) : Action → Store
  | .flip => { store with tape := (store.tape.flip store.head).2 }
  | .read =>
      { store with
        tape := store.tape.set store.head store.input.next.1
        input := store.input.next.2 }
  | .write =>
      { store with
        tape := store.tape.visit store.head
        output := store.output.push (store.tape.cell store.head) }
  | .left =>
      { store with tape := store.tape.visit (store.head - 1), head := store.head - 1 }
  | .right =>
      { store with tape := store.tape.visit (store.head + 1), head := store.head + 1 }
  | .comment _ _ => store

def bit (store : Store) : Bool :=
  store.tape.cell store.head

/-- A look at the cell under the head visits it. -/
def look (store : Store) : Store :=
  { store with tape := store.tape.visit store.head }

instance : Memory Store where
  perform action store := store.perform action
  bit := bit
  look := look

end Store

/-- The bits of all cells, with the head, the input and the output. -/
structure Contents where
  cells : Int64 → Bool
  head : Int64
  input : InputBits
  output : Array Bool

namespace Contents

def overwrite (contents : Contents) (bit : Bool) : Contents :=
  { contents with
    cells := fun position => if position = contents.head then bit else contents.cells position }

/-- The contents after an action. -/
def perform (contents : Contents) : Action → Contents
  | .flip => contents.overwrite (!contents.cells contents.head)
  | .read => { contents.overwrite contents.input.next.1 with input := contents.input.next.2 }
  | .write => { contents with output := contents.output.push (contents.cells contents.head) }
  | .left => { contents with head := contents.head - 1 }
  | .right => { contents with head := contents.head + 1 }
  | .comment _ _ => contents

instance : Memory Contents where
  perform action contents := contents.perform action
  bit contents := contents.cells contents.head
  look contents := contents

end Contents

def Store.contents (store : Store) : Contents :=
  { cells := store.tape.cell, head := store.head, input := store.input, output := store.output }

end BitTape
