import Mathlib.Logic.ExistsUnique
import BitTape.Machine.Load
import BitTape.Proofs.Cells
import BitTape.Proofs.Layout

/-!
# Runs as structured executions

The machine jumps between brackets; a tree runs its loops.  This file proves that a run from the
start of a program ends exactly if the tree of the program ends, and in the same state.  The
comparison is made through a `View` of the store.  There are two of them: the store itself, and its
contents without the extent of the tape.
-/

namespace BitTape

open Memory

/-- A view of stores in which every command can be followed. -/
structure View (σ : Type) [Memory σ] where
  /-- The state that is seen. -/
  see : Store → σ
  /-- Stores at which a second look changes nothing. -/
  Steady : Store → Prop
  see_perform : ∀ action store, see (perform action store) = perform action (see store)
  see_look : ∀ store, see (look store) = look (see store)
  bit_see : ∀ store, bit (see store) = bit store
  look_look : ∀ store, Steady store → look (look (see store)) = look (see store)
  steady_perform : ∀ action store, Steady store → Steady (perform action store)
  steady_look : ∀ store, Steady store → Steady (look store)

namespace View

variable {σ : Type} [Memory σ]

/-- The machine stands at a position of a program and shows a state. -/
structure Stands (view : View σ) (code : Array UInt8) (jumps : JumpTable) (machine : Machine)
    (position : Nat) (state : σ) : Prop where
  code_eq : machine.code = code
  jumps_eq : machine.jumps = jumps
  counter_eq : machine.counter = position
  see_eq : view.see machine.store = state
  steady : view.Steady machine.store

variable {view : View σ} {code : Array UInt8} {jumps : JumpTable} {machine : Machine}
  {position : Nat} {state : σ}

theorem Stands.fetches {byte : UInt8} (stands : view.Stands code jumps machine position state)
    (here : code[position]? = some byte) : machine.Fetches byte :=
  Machine.fetches_of_counter stands.counter_eq (by rw [stands.code_eq, here])

theorem Stands.bit_eq (stands : view.Stands code jumps machine position state) :
    machine.store.bit = bit state := by
  rw [← stands.see_eq, view.bit_see]
  rfl

theorem Stands.after_look {target : Nat} (stands : view.Stands code jumps machine position state) :
    view.Stands code jumps (machine.goOn machine.store.look target) target (look state) where
  code_eq := stands.code_eq
  jumps_eq := stands.jumps_eq
  counter_eq := rfl
  see_eq := by
    rw [Machine.store_goOn, ← stands.see_eq]
    exact view.see_look machine.store
  steady := view.steady_look _ stands.steady

theorem Stands.act {action : Action} (stands : view.Stands code jumps machine position state)
    (here : code[position]? = some action.symbol) :
    ∃ next, machine.Step next ∧
      view.Stands code jumps next (position + 1) (perform action state) := by
  have fetches := stands.fetches here
  refine ⟨_, ⟨fetches.isHalted, Machine.step_act fetches⟩, ?_⟩
  exact {
    code_eq := stands.code_eq
    jumps_eq := stands.jumps_eq
    counter_eq := by rw [Machine.counter_goOn, stands.counter_eq]; rfl
    see_eq := by rw [Machine.store_goOn, view.see_perform, stands.see_eq]
    steady := view.steady_perform _ _ stands.steady }

theorem Stands.pass {bracket : Instruction}
    (stands : view.Stands code jumps machine position state)
    (here : code[position]? = some bracket.symbol)
    (passes : bracket.Passes (bit state)) :
    ∃ next, machine.Step next ∧ view.Stands code jumps next (position + 1) (look state) := by
  have fetches := stands.fetches here
  have stepped : machine.step =
      .ok (machine.goOn machine.store.look (position + 1 : Nat)) := by
    rw [Machine.step_pass fetches (stands.bit_eq ▸ passes), stands.counter_eq]
    rfl
  exact ⟨_, ⟨fetches.isHalted, stepped⟩, stands.after_look⟩

theorem Stands.jump {bracket : Instruction} {target : Nat}
    (stands : view.Stands code jumps machine position state)
    (here : code[position]? = some bracket.symbol) (linked : jumps.target? position = some target)
    (jumped : bracket.Jumps (bit state)) :
    ∃ next, machine.Step next ∧ view.Stands code jumps next target (look state) := by
  have fetches := stands.fetches here
  have linked : machine.jumps.target? machine.counter = some target := by
    rw [stands.jumps_eq, stands.counter_eq, linked]
  have stepped := Machine.step_jump fetches (stands.bit_eq ▸ jumped) linked
  exact ⟨_, ⟨fetches.isHalted, stepped⟩, stands.after_look⟩

theorem Stands.bit_look (stands : view.Stands code jumps machine position state) :
    bit (look state) = bit state := by
  rw [← stands.see_eq, ← view.see_look, view.bit_see, view.bit_see]
  exact Tape.cell_visit ..

theorem Stands.look_look (stands : view.Stands code jumps machine position state) :
    look (look state) = look state := by
  rw [← stands.see_eq]
  exact view.look_look _ stands.steady

end View

/-- The positions from which a laid tree is executed: a loop may be entered at either bracket. -/
def Tree.Entrance : Tree → (position entry : Nat) → Prop
  | .loop body _, position, entry => entry = position ∨ entry = position + body.size + 1
  | _, position, entry => entry = position

theorem Tree.entrance_self (tree : Tree) (position : Nat) : tree.Entrance position position := by
  cases tree with
  | loop body rest => exact .inl rfl
  | _ => rfl

namespace View

variable {σ : Type} [Memory σ] {view : View σ} {code : Array UInt8} {jumps : JumpTable}
  {machine : Machine} {position entry : Nat} {body rest : Tree}

theorem Stands.enter {state : σ} (stands : view.Stands code jumps machine entry state)
    (laid : (Tree.loop body rest).Laid code jumps position)
    (entrance : (Tree.loop body rest).Entrance position entry) (isOne : bit state = true) :
    ∃ next, Relation.TransGen Machine.Step machine next ∧
      view.Stands code jumps next (position + 1) (look state) := by
  obtain ⟨start, -, -, stop, stopLink, -⟩ := laid
  rcases entrance with rfl | rfl
  · obtain ⟨next, step, entered⟩ := stands.pass start (.inl ⟨rfl, isOne⟩)
    exact ⟨next, .single step, entered⟩
  · obtain ⟨middle, step, atStart⟩ := stands.jump stop stopLink (.inr ⟨rfl, isOne⟩)
    obtain ⟨next, secondStep, entered⟩ :=
      atStart.pass start (.inl ⟨rfl, stands.bit_look.trans isOne⟩)
    rw [stands.look_look] at entered
    exact ⟨next, .tail (.single step) secondStep, entered⟩

theorem Stands.leave {state : σ} (stands : view.Stands code jumps machine entry state)
    (laid : (Tree.loop body rest).Laid code jumps position)
    (entrance : (Tree.loop body rest).Entrance position entry) (isZero : bit state = false) :
    ∃ next, Relation.TransGen Machine.Step machine next ∧
      view.Stands code jumps next (position + body.size + 2) (look state) := by
  obtain ⟨start, startLink, -, stop, -, -⟩ := laid
  rcases entrance with rfl | rfl
  · obtain ⟨middle, step, atStop⟩ := stands.jump start startLink (.inl ⟨rfl, isZero⟩)
    obtain ⟨next, secondStep, left⟩ :=
      atStop.pass stop (.inr ⟨rfl, stands.bit_look.trans isZero⟩)
    rw [stands.look_look] at left
    exact ⟨next, .tail (.single step) secondStep, left⟩
  · obtain ⟨next, step, left⟩ := stands.pass stop (.inr ⟨rfl, isZero⟩)
    exact ⟨next, .single step, left⟩

/-- The machine follows the execution of a tree to the end of its spelling. -/
theorem steps_of_executes {tree : Tree} {before after : σ} (execution : tree.Executes before after)
    (laid : tree.Laid code jumps position) (entrance : tree.Entrance position entry)
    (stands : view.Stands code jumps machine entry before) :
    ∃ next, machine.Steps next ∧ view.Stands code jumps next (position + tree.size) after := by
  induction execution generalizing machine position entry with
  | nil state =>
      obtain rfl : entry = position := entrance
      exact ⟨machine, .refl, stands⟩
  | act _ ih =>
      obtain rfl : entry = position := entrance
      obtain ⟨middle, step, middleStands⟩ := stands.act laid.1
      obtain ⟨next, steps, nextStands⟩ := ih laid.2 (Tree.entrance_self ..) middleStands
      refine ⟨next, .head step steps, ?_⟩
      rw [Tree.size_act, ← Nat.add_assoc, Nat.add_right_comm]
      exact nextStands
  | @leave body rest _ _ isZero _ ih =>
      obtain ⟨middle, path, middleStands⟩ := stands.leave laid entrance isZero
      obtain ⟨-, -, -, -, -, restLaid⟩ := laid
      obtain ⟨next, steps, nextStands⟩ := ih restLaid (Tree.entrance_self ..) middleStands
      refine ⟨next, path.to_reflTransGen.trans steps, ?_⟩
      rw [Tree.size_loop, show position + (body.size + rest.size + 2) =
        position + body.size + 2 + rest.size by omega]
      exact nextStands
  | @again body rest before middle after isOne _ _ bodySteps againSteps =>
      obtain ⟨inside, path, insideStands⟩ := stands.enter laid entrance isOne
      obtain ⟨-, -, bodyLaid, -, -, -⟩ := id laid
      obtain ⟨stop, steps, stopStands⟩ := bodySteps bodyLaid (Tree.entrance_self ..) insideStands
      obtain ⟨next, moreSteps, nextStands⟩ := againSteps laid (.inr (by omega)) stopStands
      exact ⟨next, path.to_reflTransGen.trans (steps.trans moreSteps), nextStands⟩

/-- A run with an answer that comes through an entrance of a tree executes the tree and goes on
behind it, with fewer instructions left. -/
theorem executes_of_runFor {tree : Tree} {steps : Nat} {answer : Except Crash Machine} {before : σ}
    (answered : machine.runFor steps = some answer) (laid : tree.Laid code jumps position)
    (entrance : tree.Entrance position entry)
    (stands : view.Stands code jumps machine entry before) :
    ∃ fewer ≤ steps, ∃ next after, next.runFor fewer = some answer ∧
      tree.Executes before after ∧ view.Stands code jumps next (position + tree.size) after := by
  induction steps using Nat.strongRecOn generalizing tree machine position entry before with
  | ind steps ih =>
      cases tree with
      | nil =>
          obtain rfl : entry = position := entrance
          exact ⟨steps, Nat.le_refl _, machine, before, answered, .nil before, stands⟩
      | act action rest =>
          obtain rfl : entry = position := entrance
          obtain ⟨middle, step, middleStands⟩ := stands.act laid.1
          obtain ⟨left, left_lt, answered⟩ :=
            Machine.runFor_after_transGen (.single step) answered
          obtain ⟨fewer, fewer_le, next, after, answered, execution, nextStands⟩ :=
            ih left left_lt answered laid.2 (Tree.entrance_self ..) middleStands
          refine ⟨fewer, by omega, next, after, answered, .act execution, ?_⟩
          rw [Tree.size_act, ← Nat.add_assoc, Nat.add_right_comm]
          exact nextStands
      | loop body rest =>
          obtain ⟨-, -, bodyLaid, -, -, restLaid⟩ := id laid
          cases tested : bit before with
          | false =>
              obtain ⟨middle, path, middleStands⟩ := stands.leave laid entrance tested
              obtain ⟨left, left_lt, answered⟩ := Machine.runFor_after_transGen path answered
              obtain ⟨fewer, fewer_le, next, after, answered, execution, nextStands⟩ :=
                ih left left_lt answered restLaid (Tree.entrance_self ..) middleStands
              refine ⟨fewer, by omega, next, after, answered, .leave tested execution, ?_⟩
              rw [Tree.size_loop, show position + (body.size + rest.size + 2) =
                position + body.size + 2 + rest.size by omega]
              exact nextStands
          | true =>
              obtain ⟨inside, path, insideStands⟩ := stands.enter laid entrance tested
              obtain ⟨left, left_lt, answered⟩ := Machine.runFor_after_transGen path answered
              obtain ⟨atStop, atStop_le, stop, middle, answered, bodyExecution, stopStands⟩ :=
                ih left left_lt answered bodyLaid (Tree.entrance_self ..) insideStands
              obtain ⟨fewer, fewer_le, next, after, answered, execution, nextStands⟩ :=
                ih atStop (by omega) answered laid (.inr (by omega)) stopStands
              exact ⟨fewer, by omega, next, after, answered,
                .again tested bodyExecution execution, nextStands⟩

section Programs

variable {program : Bytes} {tree : Tree}

private theorem stands_start (sameCode : machine.code = program.toArray)
    (sameJumps : machine.jumps = jumps) (start : machine.counter = 0)
    (steady : view.Steady machine.store) :
    view.Stands program.toArray jumps { machine with executed := 0 } 0 (view.see machine.store) :=
  ⟨sameCode, sameJumps, start, rfl, steady⟩

private theorem isHalted_of_stands {state : σ} (spelled : tree.flatten = program)
    (atEnd : view.Stands program.toArray jumps machine (0 + tree.size) state) :
    machine.isHalted = true := by
  simp [Machine.isHalted, atEnd.code_eq, atEnd.counter_eq, Tree.size, spelled]

variable (view)

theorem exists_executes_of_run (accepted : JumpTable.ofProgram program = .ok jumps)
    (spelled : tree.flatten = program) (sameCode : machine.code = program.toArray)
    (sameJumps : machine.jumps = jumps) (start : machine.counter = 0)
    (steady : view.Steady machine.store) {steps : Nat} {answer : Except Crash Machine}
    (answered : machine.run steps = some answer) :
    ∃ last, answer = .ok last ∧
      tree.Executes (view.see machine.store) (view.see last.store) := by
  obtain ⟨fewer, -, next, after, answered, execution, atEnd⟩ :=
    executes_of_runFor answered (Tree.laid_of_ofProgram accepted spelled) (Tree.entrance_self ..)
      (stands_start sameCode sameJumps start steady)
  rw [Machine.runFor_of_isHalted (isHalted_of_stands spelled atEnd)] at answered
  refine ⟨next, (Option.some.inj answered).symm, ?_⟩
  rw [atEnd.see_eq]
  exact execution

/-- The run from the start of a program ends in a state exactly if its tree does. -/
theorem run_eq_ok_iff_executes (accepted : JumpTable.ofProgram program = .ok jumps)
    (spelled : tree.flatten = program) (sameCode : machine.code = program.toArray)
    (sameJumps : machine.jumps = jumps) (start : machine.counter = 0)
    (steady : view.Steady machine.store) (after : σ) :
    (∃ steps last, machine.run steps = some (.ok last) ∧ view.see last.store = after) ↔
      tree.Executes (view.see machine.store) after := by
  constructor
  · rintro ⟨steps, last, answered, rfl⟩
    obtain ⟨other, same, execution⟩ :=
      view.exists_executes_of_run accepted spelled sameCode sameJumps start steady answered
    obtain rfl := Except.ok.inj same
    exact execution
  · intro execution
    obtain ⟨next, steps, atEnd⟩ :=
      steps_of_executes execution (Tree.laid_of_ofProgram accepted spelled)
        (Tree.entrance_self ..) (stands_start sameCode sameJumps start steady)
    obtain ⟨count, answered⟩ := Machine.runFor_of_steps steps
      (Machine.runFor_of_isHalted (isHalted_of_stands spelled atEnd) 0)
    exact ⟨count, next, answered, atEnd.see_eq⟩

/-- The run from the start of a program has no answer exactly if its tree has no final state. -/
theorem run_eq_none_iff (accepted : JumpTable.ofProgram program = .ok jumps)
    (spelled : tree.flatten = program) (sameCode : machine.code = program.toArray)
    (sameJumps : machine.jumps = jumps) (start : machine.counter = 0)
    (steady : view.Steady machine.store) :
    (∀ steps, machine.run steps = none) ↔
      ¬∃ after, tree.Executes (view.see machine.store) after := by
  constructor
  · rintro endless ⟨after, execution⟩
    obtain ⟨steps, last, answered, -⟩ :=
      (view.run_eq_ok_iff_executes accepted spelled sameCode sameJumps start steady after).mpr
        execution
    rw [endless steps] at answered
    cases answered
  · intro endless steps
    cases answered : machine.run steps with
    | none => rfl
    | some answer =>
        obtain ⟨last, -, execution⟩ :=
          view.exists_executes_of_run accepted spelled sameCode sameJumps start steady answered
        exact (endless ⟨_, execution⟩).elim

end Programs
end View

/-! ## The two views -/

namespace Store

theorem steady_perform (action : Action) (store : Store) (steady : store.look.look = store.look) :
    (store.perform action).look.look = (store.perform action).look := by
  cases action with
  | flip => simp [perform, look, Tape.flip, Tape.visit_toggle, Tape.visit_visit_visit]
  | read =>
      simp only [perform, look, Tape.set]
      split <;> simp [Tape.visit_toggle, Tape.visit_visit_visit]
  | write => simp [perform, look, Tape.visit_visit_visit]
  | left => simp [perform, look, Tape.visit_visit_visit]
  | right => simp [perform, look, Tape.visit_visit_visit]
  | comment byte plain => exact steady

/-- The store with the extent of its tape. -/
def view : View Store where
  see store := store
  Steady store := store.look.look = store.look
  see_perform _ _ := rfl
  see_look _ := rfl
  bit_see _ := rfl
  look_look _ steady := steady
  steady_perform := steady_perform
  steady_look _ steady := congrArg look steady

theorem look_look_of_nonneg {store : Store} (left : 0 ≤ store.tape.leftExtent)
    (right : 0 ≤ store.tape.rightExtent) : store.look.look = store.look := by
  have steady : (store.tape.visit store.head).visit store.head = store.tape.visit store.head := by
    unfold Tape.visit
    grind
  simp only [look, steady]

theorem contents_look (store : Store) : store.look.contents = store.contents := by
  simp [look, contents, funext_iff]

theorem contents_perform (action : Action) (store : Store) :
    (store.perform action).contents = store.contents.perform action := by
  cases action with
  | flip =>
      simp only [perform, contents, Contents.perform, Contents.overwrite, Contents.mk.injEq,
        and_true]
      funext position
      rw [Tape.cell_flip]
      by_cases here : position = store.head <;> simp [here]
  | read =>
      simp only [perform, contents, Contents.perform, Contents.overwrite, Contents.mk.injEq,
        and_true]
      funext position
      exact Tape.cell_set ..
  | write => simp [perform, contents, Contents.perform, funext_iff]
  | left => simp [perform, contents, Contents.perform, funext_iff]
  | right => simp [perform, contents, Contents.perform, funext_iff]
  | comment byte plain => rfl

end Store

/-- The contents of the cells. -/
def Contents.view : View Contents where
  see := Store.contents
  Steady _ := True
  see_perform := Store.contents_perform
  see_look := Store.contents_look
  bit_see _ := rfl
  look_look _ _ := rfl
  steady_perform _ _ _ := trivial
  steady_look _ _ := trivial

/-- A program with a jump table is spelled by exactly one tree, and its runs end in a state exactly
if the tree does, and go on forever exactly if the tree has no final state. -/
theorem Machine.run_ends_iff_tree_executes {program : Bytes} {jumps : JumpTable}
    (accepted : JumpTable.ofProgram program = .ok jumps) :
    (∃! tree : Tree, tree.flatten = program) ∧
      ∀ tree : Tree, tree.flatten = program →
        ∀ machine : Machine, machine.code = program.toArray → machine.jumps = jumps →
          machine.counter = 0 →
            (∀ after : Contents,
              (∃ steps last, machine.run steps = some (.ok last) ∧ last.store.contents = after) ↔
                tree.Executes machine.store.contents after) ∧
            ((∀ steps, machine.run steps = none) ↔
              ¬∃ after : Contents, tree.Executes machine.store.contents after) ∧
            (0 ≤ machine.tape.leftExtent → 0 ≤ machine.tape.rightExtent → ∀ after : Store,
              (∃ steps last, machine.run steps = some (.ok last) ∧ last.store = after) ↔
                tree.Executes machine.store after) := by
  refine ⟨?_, ?_⟩
  · obtain ⟨tree, spelled, -⟩ := JumpTable.ofProgram_eq_ok_iff.mp accepted
    exact ⟨tree, spelled, fun other same => Tree.flatten_injective (same.trans spelled.symm)⟩
  · intro tree spelled machine sameCode sameJumps start
    refine ⟨?_, ?_, ?_⟩
    · exact Contents.view.run_eq_ok_iff_executes accepted spelled sameCode sameJumps start trivial
    · exact Contents.view.run_eq_none_iff accepted spelled sameCode sameJumps start trivial
    · intro left right
      exact Store.view.run_eq_ok_iff_executes accepted spelled sameCode sameJumps start
        (Store.look_look_of_nonneg left right)

/-- The program `,[;,]` copies the one bits at the start of its input. -/
theorem Machine.tree_executes_copying_ones :
    ∃ (jumps : JumpTable) (tree : Tree) (last : Store),
      JumpTable.ofProgram (text ",[;,]") = .ok jumps ∧ tree.flatten = text ",[;,]" ∧
        tree.Executes { fresh (text ",[;,]") jumps with input := .ofBytes [11] }.store last ∧
        last.output = #[true, true] := by
  have accepted : JumpTable.ofProgram (text ",[;,]") =
      .ok ⟨#[none, some 4, none, none, some 1]⟩ := rfl
  obtain ⟨last, answered, written⟩ : ∃ last,
      run 9 { fresh (text ",[;,]") ⟨#[none, some 4, none, none, some 1]⟩ with
        input := .ofBytes [11] } = some (.ok last) ∧ last.output = #[true, true] :=
    ⟨_, rfl, rfl⟩
  obtain ⟨-, follows⟩ := run_ends_iff_tree_executes accepted
  obtain ⟨-, -, ends⟩ := follows (.act .read (.loop (.act .write (.act .read .nil)) .nil)) rfl
    { fresh (text ",[;,]") _ with input := .ofBytes [11] } rfl rfl rfl
  have execution := (ends (by decide) (by decide) last.store).mp ⟨9, last, answered, rfl⟩
  exact ⟨_, _, last.store, accepted, rfl, execution, written⟩

end BitTape
