import BitTape.Proofs.Tree

/-!
# Balanced brackets

A program is balanced if none of its fronts ends more loops than it starts and the whole program
ends all that it starts.  Exactly the balanced programs have a jump table.
-/

namespace BitTape

/-- The brackets of a program form a balanced word. -/
structure Balanced (program : Bytes) : Prop where
  /-- No front ends more loops than it starts. -/
  nested : ∀ front, front <+: program →
    front.count Instruction.close.symbol ≤ front.count Instruction.loop.symbol
  /-- All loops are ended. -/
  closed : program.count Instruction.close.symbol = program.count Instruction.loop.symbol

/-- A program that may follow a front with a number of open loops. -/
structure Closes (depth : Nat) (program : Bytes) : Prop where
  /-- No front ends more loops than are open. -/
  nested : ∀ front, front <+: program →
    front.count Instruction.close.symbol ≤ depth + front.count Instruction.loop.symbol
  /-- All open loops are ended. -/
  closed : program.count Instruction.close.symbol =
    depth + program.count Instruction.loop.symbol

theorem balanced_iff_closes (program : Bytes) : Balanced program ↔ Closes 0 program := by
  constructor
  · rintro ⟨nested, closed⟩
    exact ⟨by simpa using nested, by simpa using closed⟩
  · rintro ⟨nested, closed⟩
    exact ⟨by simpa using nested, by simpa using closed⟩

namespace Closes

@[simp]
theorem nil_iff (depth : Nat) : Closes depth [] ↔ depth = 0 := by
  constructor
  · rintro ⟨_, closed⟩
    simpa using closed.symm
  · rintro rfl
    refine ⟨?_, rfl⟩
    intro front isFront
    simp [List.prefix_nil.mp isFront]

private theorem cons_iff {byte : UInt8} {rest : Bytes} {depth : Nat} :
    Closes depth (byte :: rest) ↔
      (∀ front, front <+: rest →
        front.count Instruction.close.symbol + [byte].count Instruction.close.symbol ≤
          depth + (front.count Instruction.loop.symbol + [byte].count Instruction.loop.symbol)) ∧
      rest.count Instruction.close.symbol + [byte].count Instruction.close.symbol =
        depth + (rest.count Instruction.loop.symbol + [byte].count Instruction.loop.symbol) := by
  have split (front : Bytes) (bracket : UInt8) :
      (byte :: front).count bracket = front.count bracket + [byte].count bracket := by
    rw [← List.singleton_append, List.count_append, Nat.add_comm]
  constructor
  · rintro ⟨nested, closed⟩
    rw [split rest, split rest] at closed
    refine ⟨?_, closed⟩
    intro front isFront
    have bounded := nested (byte :: front) ((List.prefix_cons_inj byte).mpr isFront)
    rw [split front, split front] at bounded
    exact bounded
  · rintro ⟨nested, closed⟩
    refine ⟨?_, by rw [split rest, split rest]; exact closed⟩
    intro front isFront
    obtain rfl | ⟨back, rfl, isBack⟩ := List.prefix_cons_iff.mp isFront
    · simp
    · rw [split back, split back]
      exact nested back isBack

theorem act_iff (action : Action) (rest : Bytes) (depth : Nat) :
    Closes depth (action.symbol :: rest) ↔ Closes depth rest := by
  have uncounted (bracket : Instruction) (isBracket : bracket = .loop ∨ bracket = .close) :
      [action.symbol].count bracket.symbol = 0 := by
    have differs := action.instruction_symbol_ne bracket isBracket
    rw [ne_eq, Instruction.ofByte?_eq_some_iff] at differs
    simpa [List.count_eq_zero] using differs
  rw [cons_iff, uncounted _ (.inl rfl), uncounted _ (.inr rfl)]
  constructor
  · rintro ⟨nested, closed⟩
    exact ⟨nested, closed⟩
  · rintro ⟨nested, closed⟩
    exact ⟨nested, closed⟩

theorem loop_iff (rest : Bytes) (depth : Nat) :
    Closes depth (Instruction.loop.symbol :: rest) ↔ Closes (depth + 1) rest := by
  have loops : [Instruction.loop.symbol].count Instruction.loop.symbol = 1 := rfl
  have ends : [Instruction.loop.symbol].count Instruction.close.symbol = 0 := rfl
  rw [cons_iff, loops, ends]
  constructor
  · rintro ⟨nested, closed⟩
    refine ⟨fun front isFront => ?_, by omega⟩
    have bounded := nested front isFront
    omega
  · rintro ⟨nested, closed⟩
    refine ⟨fun front isFront => ?_, by omega⟩
    have bounded := nested front isFront
    omega

theorem close_iff (rest : Bytes) (depth : Nat) :
    Closes depth (Instruction.close.symbol :: rest) ↔
      ∃ outer, depth = outer + 1 ∧ Closes outer rest := by
  have loops : [Instruction.close.symbol].count Instruction.loop.symbol = 0 := rfl
  have ends : [Instruction.close.symbol].count Instruction.close.symbol = 1 := rfl
  rw [cons_iff, loops, ends]
  constructor
  · rintro ⟨nested, closed⟩
    have some_open := nested [] (List.nil_prefix)
    simp only [List.count_nil] at some_open
    refine ⟨depth - 1, by omega, fun front isFront => ?_, by omega⟩
    have bounded := nested front isFront
    omega
  · rintro ⟨outer, rfl, nested, closed⟩
    refine ⟨fun front isFront => ?_, by omega⟩
    have bounded := nested front isFront
    omega

end Closes

namespace JumpTable

/-- A scan succeeds exactly if the rest of the program ends all open loops. -/
theorem scan_isOk_iff (program : Bytes) (opened : List Nat) (entries : Array (Option Nat)) :
    (∃ table, scan program opened entries = .ok table) ↔ Closes opened.length program := by
  induction program generalizing opened entries with
  | nil => cases opened <;> simp [scan]
  | cons byte rest ih =>
      obtain ⟨action, rfl⟩ | rfl | rfl := Action.byte_cases byte
      · rw [scan_act, ih, Closes.act_iff]
      · rw [scan_loop, ih, Closes.loop_iff, List.length_cons]
      · rw [Closes.close_iff]
        cases opened with
        | nil => simp [scan_close_nil]
        | cons partner outer =>
            rw [scan_close_cons, ih]
            simp

/-- Exactly the balanced programs have a jump table. -/
theorem ofProgram_isOk_iff (program : Bytes) :
    (∃ table, ofProgram program = .ok table) ↔ Balanced program := by
  rw [balanced_iff_closes]
  exact scan_isOk_iff program [] #[]

end JumpTable

instance (program : Bytes) : Decidable (Balanced program) :=
  decidable_of_iff ((JumpTable.ofProgram program).toBool = true) <| by
    rw [← JumpTable.ofProgram_isOk_iff]
    cases JumpTable.ofProgram program <;> simp [Except.toBool]

end BitTape
