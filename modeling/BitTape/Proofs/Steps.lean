import Mathlib.Logic.Relation
import BitTape.Machine

/-!
# Counted runs

`Machine.Steps` is the relation between a machine and the machine after some instructions, and
`Machine.proceed` the state after a given number of them.  A bounded run follows both of them, so
that what every instruction keeps is kept by every run.
-/

namespace BitTape
namespace Machine

/-- One instruction of a machine that has not left its program. -/
def Step (before after : Machine) : Prop :=
  before.isHalted = false ∧ before.step = .ok after

/-- Any number of instructions. -/
def Steps : Machine → Machine → Prop :=
  Relation.ReflTransGen Step

theorem runFor_zero_of_step {before after : Machine} (step : before.Step after) :
    before.runFor 0 = none := by
  simp [runFor, step.1]

theorem runFor_succ_of_step {before after : Machine} (step : before.Step after) (steps : Nat) :
    before.runFor (steps + 1) = after.runFor steps := by
  simp [runFor, step.1, step.2]

theorem runFor_of_steps {before after : Machine} (path : before.Steps after) {steps : Nat}
    {answer : Except Crash Machine} (answered : after.runFor steps = some answer) :
    ∃ more, before.runFor more = some answer := by
  induction path using Relation.ReflTransGen.head_induction_on with
  | refl => exact ⟨steps, answered⟩
  | head step _ ih =>
      obtain ⟨more, answered⟩ := ih
      exact ⟨more + 1, by rw [runFor_succ_of_step step, answered]⟩

/-- A run with an answer goes through every later state, with fewer instructions left there. -/
theorem runFor_after_transGen {before after : Machine}
    (path : Relation.TransGen Step before after) {steps : Nat} {answer : Except Crash Machine}
    (answered : before.runFor steps = some answer) :
    ∃ fewer < steps, after.runFor fewer = some answer := by
  induction path using Relation.TransGen.head_induction_on generalizing steps with
  | single step =>
      cases steps with
      | zero => simp [runFor_zero_of_step step] at answered
      | succ fewer =>
          rw [runFor_succ_of_step step] at answered
          exact ⟨fewer, by omega, answered⟩
  | head step _ ih =>
      cases steps with
      | zero => simp [runFor_zero_of_step step] at answered
      | succ fewer =>
          rw [runFor_succ_of_step step] at answered
          obtain ⟨rest, fewer_rest, answered⟩ := ih answered
          exact ⟨rest, by omega, answered⟩

/-- The state after a number of instructions, or at the end of the program if that comes first. -/
def proceed : (steps : Nat) → Machine → Except Crash Machine
  | 0, machine => .ok machine
  | steps + 1, machine =>
      if machine.isHalted then
        .ok machine
      else
        match machine.step with
        | .ok next => next.proceed steps
        | .error crash => .error crash

theorem proceed_of_isHalted {machine : Machine} (halted : machine.isHalted = true) (steps : Nat) :
    machine.proceed steps = .ok machine := by
  cases steps <;> simp [proceed, halted]

theorem proceed_succ_of_step {before after : Machine} (step : before.Step after) (steps : Nat) :
    before.proceed (steps + 1) = after.proceed steps := by
  simp [proceed, step.1, step.2]

theorem runFor_eq_proceed (machine : Machine) (steps : Nat) :
    machine.runFor steps =
      match machine.proceed steps with
      | .ok next => if next.isHalted then some (.ok next) else none
      | .error crash => some (.error crash) := by
  induction steps generalizing machine with
  | zero => rfl
  | succ steps ih =>
      cases halted : machine.isHalted with
      | true => simp [runFor, proceed, halted]
      | false =>
          cases stepped : machine.step with
          | ok next => simp [runFor, proceed, halted, stepped, ih]
          | error crash => simp [runFor, proceed, halted, stepped]

/-- What every instruction keeps and never crashes from, a run keeps and never crashes from. -/
theorem proceed_ok_of_invariant {Invariant : Machine → Prop}
    (progress : ∀ machine, Invariant machine → machine.isHalted = false →
      ∃ next, machine.step = .ok next ∧ Invariant next)
    {machine : Machine} (holds : Invariant machine) (steps : Nat) :
    ∃ next, machine.proceed steps = .ok next ∧ Invariant next := by
  induction steps generalizing machine with
  | zero => exact ⟨machine, rfl, holds⟩
  | succ steps ih =>
      cases halted : machine.isHalted with
      | true => exact ⟨machine, proceed_of_isHalted halted _, holds⟩
      | false =>
          obtain ⟨next, stepped, kept⟩ := progress machine holds halted
          rw [proceed_succ_of_step ⟨halted, stepped⟩]
          exact ih kept

end Machine
end BitTape
