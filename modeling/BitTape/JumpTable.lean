import BitTape.Instruction

/-!
# Matching brackets

`JumpTable.ofProgram` finds the partner of every bracket in one pass over the program, or the
bracket that has none.
-/

namespace BitTape

/-- A bracket without a partner. -/
structure Mismatch where
  /-- Position of the bracket in the program. -/
  position : Nat
  deriving DecidableEq

/-- How a mismatch is reported. -/
def Mismatch.message (mismatch : Mismatch) : Bytes :=
  text "mismatched bracket at position " ++ decimal mismatch.position

/-- Where a jump from each position of a program leads, if there is one. -/
structure JumpTable where
  /-- One entry for each position. -/
  entries : Array (Option Nat)
  deriving DecidableEq

namespace JumpTable

/-- The target of a jump from a position, which may lie outside the table. -/
def target? (table : JumpTable) (position : Int) : Option Nat :=
  if position < 0 then none else table.entries[position.toNat]?.join

/-- Match the brackets of the rest of a program; `opened` holds the positions of the open loops, the
innermost first, and `entries` covers the positions before.  Of loops without an end the outermost
is reported. -/
def scan : Bytes → (opened : List Nat) → (entries : Array (Option Nat)) → Except Mismatch JumpTable
  | [], [], entries => .ok ⟨entries⟩
  | [], innermost :: outer, _ => .error ⟨(innermost :: outer).getLast (by simp)⟩
  | byte :: rest, opened, entries =>
      match Instruction.ofByte? byte, opened with
      | some .loop, opened => scan rest (entries.size :: opened) (entries.push none)
      | some .close, [] => .error ⟨entries.size⟩
      | some .close, partner :: outer =>
          let here := entries.size
          scan rest outer ((entries.setIfInBounds partner (some here)).push (some partner))
      | _, opened => scan rest opened (entries.push none)

/-- The jump table of a program, or the first bracket that has no partner. -/
def ofProgram (program : Bytes) : Except Mismatch JumpTable :=
  scan program [] #[]

end JumpTable
end BitTape
