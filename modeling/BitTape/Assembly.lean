import BitTape.Assembly.Scanner
import BitTape.Instruction

/-!
# The assembler

The words of a source outside comments are compiled one by one and their instructions joined.  A
word is a name of an instruction or a string of instruction symbols, and may end in a star and a
repeat count.  The word `(` starts a comment and the next word `)` ends it.  If anything is wrong,
the result is a list of diagnostics and no program.
-/

namespace BitTape

/-- The star between a word and its repeat count. -/
def star : UInt8 :=
  ascii '*'

/-- The largest repeat count: two to the power of 24. -/
def maxRepeat : Nat :=
  0x1000000

/-- Instructions that a word stands for: a block and the number of times it is repeated. -/
structure Expansion where
  block : Bytes
  count : Nat
  deriving DecidableEq

/-- The instructions of an expansion. -/
def Expansion.code (expansion : Expansion) : Bytes :=
  (List.replicate expansion.count expansion.block).flatten

/-- The parts of a word before and after its last star. -/
def splitAtStar? : Bytes → Option (Bytes × Bytes)
  | [] => none
  | byte :: rest =>
      match splitAtStar? rest with
      | some (base, count) => some (byte :: base, count)
      | none => if byte = star then some ([], rest) else none

/-- The value of a string of decimal digits, if it is one and not empty. -/
def digitsValue? (digits : Bytes) : Option Nat :=
  if digits ≠ [] ∧ digits.all (fun byte => ascii '0' ≤ byte && byte ≤ ascii '9') then
    some (digits.foldl (fun value byte => 10 * value + (byte - ascii '0').toNat) 0)
  else
    none

/-- The value of a repeat count: decimal digits, perhaps after a plus sign, with a positive value
that a signed 64-bit word can hold. -/
def countValue? (count : Bytes) : Option Nat :=
  let digits := if count.head? = some (ascii '+') then count.tail else count
  (digitsValue? digits).filter fun value => 1 ≤ value && value < 0x8000000000000000

/-- The block of instructions that a word without repeat count stands for. -/
def compileBase (word base : Bytes) : Except Complaint Bytes :=
  match Instruction.ofName? base with
  | some instruction => .ok [instruction.symbol]
  | none =>
      if base = [] then .error (.missingInstruction word)
      else if base.all isInstruction then .ok base
      else .error (.unknownInstruction base)

/-- What a word stands for. -/
def compileWord (word : Bytes) : Except Complaint Expansion :=
  match splitAtStar? word with
  | none => (compileBase word word).map fun block => ⟨block, 1⟩
  | some (base, count) =>
      match countValue? count with
      | none => .error (.invalidCount word)
      | some value =>
          if maxRepeat < value then .error (.largeCount word)
          else (compileBase word base).map fun block => ⟨block, value⟩

/-- Number of diagnostics after which the assembler gives up. -/
def maxDiagnostics : Nat :=
  10

/-- The word that starts a comment. -/
def commentStart : Bytes :=
  text "("

/-- The word that ends a comment. -/
def commentEnd : Bytes :=
  text ")"

/-- The result of assembling a part of a source. -/
structure Draft where
  /-- Start of the comment in which the part ends. -/
  comment : Option Position
  diagnostics : Array Diagnostic
  /-- Compiled words so far. -/
  words : Array Expansion

namespace Draft

/-- Nothing assembled yet. -/
def empty : Draft :=
  { comment := none, diagnostics := #[], words := #[] }

/-- Note a complaint. -/
def complain (draft : Draft) (position : Position) (complaint : Complaint) : Draft :=
  { draft with diagnostics := draft.diagnostics.push ⟨position, complaint⟩ }

/-- Take in a word that is not part of a comment. -/
def addWord (draft : Draft) (position : Position) (word : Bytes) : Draft :=
  if word = commentStart then
    { draft with comment := some position }
  else
    match compileWord word with
    | .ok expansion => { draft with words := draft.words.push expansion }
    | .error complaint => draft.complain position complaint

/-- Take in an event.  Inside a comment all but alarms and the end of the comment is skipped. -/
def add (draft : Draft) : Event → Draft
  | .alarm ⟨position, complaint⟩ => draft.complain position complaint
  | .word position word =>
      match draft.comment with
      | none => draft.addWord position word
      | some _ => if word = commentEnd then { draft with comment := none } else draft
  | .odd position char =>
      match draft.comment with
      | none => draft.complain position (.unexpectedChar char)
      | some _ => draft

/-- All complaints once the source has ended. -/
def allDiagnostics (draft : Draft) : List Diagnostic :=
  draft.diagnostics.toList ++
    draft.comment.toList.map fun position => ⟨position, .unterminatedComment⟩

/-- The instructions of all words. -/
def code (draft : Draft) : Bytes :=
  draft.words.toList.flatMap Expansion.code

end Draft

/-- The program of a source, or what is wrong with it. -/
def assemble (source : Source) : Except (List Diagnostic) Bytes :=
  let draft := source.events.foldl Draft.add .empty
  match draft.allDiagnostics with
  | [] => .ok draft.code
  | diagnostics => .error (diagnostics.take maxDiagnostics)

end BitTape
