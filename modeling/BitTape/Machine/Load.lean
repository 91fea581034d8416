import BitTape.Machine

/-!
# Loading a program

A machine is made from a program with balanced brackets and a list of settings.  `interpret` loads
a program with an input, runs it and returns its output.
-/

namespace BitTape

/-- A change of a machine that may be refused, for a reason given as text. -/
abbrev Setting : Type :=
  Machine → Except Bytes Machine

/-- Replace the input. -/
def Setting.input (bytes : Bytes) : Setting :=
  fun machine => .ok { machine with input := .ofBytes bytes }

/-- Why no machine could be made. -/
inductive LoadError where
  /-- The brackets of the program do not match. -/
  | mismatch (bracket : Mismatch)
  /-- A setting was refused. -/
  | refused (reason : Bytes)
  deriving DecidableEq

/-- How a load error is reported. -/
def LoadError.message : LoadError → Bytes
  | .mismatch bracket => text "jump table: " ++ bracket.message
  | .refused reason => reason

/-- Why a program gave no output. -/
inductive InterpretError where
  /-- It could not be loaded. -/
  | load (error : LoadError)
  | crash (crash : Crash)
  deriving DecidableEq

namespace Machine

/-- Apply settings in order up to the first that is refused; those before it stay in effect. -/
def configure : Machine → List Setting → Machine × Option Bytes
  | machine, [] => (machine, none)
  | machine, setting :: settings =>
      match setting machine with
      | .ok next => next.configure settings
      | .error reason => (machine, some reason)

/-- A machine at the start of a program, with a blank tape and no input. -/
def fresh (program : Bytes) (jumps : JumpTable) : Machine :=
  { code := program.toArray
    jumps
    counter := 0
    tape := .blank
    head := 0
    input := .ofBytes []
    output := #[]
    executed := 0 }

/-- Load a program and apply settings to the new machine. -/
def load (program : Bytes) (settings : List Setting) : Except LoadError Machine :=
  match JumpTable.ofProgram program with
  | .error bracket => .error (.mismatch bracket)
  | .ok jumps =>
      match (fresh program jumps).configure settings with
      | (machine, none) => .ok machine
      | (_, some reason) => .error (.refused reason)

end Machine

/-- The output of a program on an input, if it needs at most `steps` instructions. -/
def interpret (steps : Nat) (program input : Bytes) : Option (Except InterpretError Bytes) :=
  match Machine.load program [.input input] with
  | .error error => some (.error (.load error))
  | .ok machine =>
      match machine.run steps with
      | none => none
      | some (.error crash) => some (.error (.crash crash))
      | some (.ok final) => some (.ok final.outputBytes)

end BitTape
