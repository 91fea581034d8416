import BitTape.Assembly.Diagnostic
import BitTape.Command.Arguments
import BitTape.Command.Host
import BitTape.Machine.Load
import BitTape.Output

/-!
# Failures of the command

Every failure has a cause, and some have a context: what was being done at the time.
-/

namespace BitTape

/-- Why the command failed. -/
inductive Failure where
  /-- The arguments are wrong. -/
  | usage (error : UsageError)
  /-- The program file cannot be read. -/
  | programFile (name : Bytes) (error : FileError)
  /-- The source has errors. -/
  | assembly (name : Bytes) (diagnostics : List Diagnostic)
  /-- Input was given as an argument and as a file. -/
  | twoInputs
  /-- The input file cannot be read. -/
  | inputFile (name : Bytes) (error : FileError)
  /-- No input was given, and there is only a terminal to read it from. -/
  | noInput
  /-- Standard input cannot be read to its end. -/
  | stdin (reason : Bytes)
  /-- The program cannot be loaded. -/
  | load (error : LoadError)
  | crash (wreck : Crash)
  /-- Output could not be written. -/
  | write (failure : WriteFailure)
  deriving DecidableEq

namespace Failure

/-- What went wrong. -/
def cause : Failure → Bytes
  | usage error => error.message
  | programFile name error => error.message name
  | assembly name diagnostics => report name diagnostics
  | twoInputs => text "input given both as argument and with --input"
  | inputFile name error => error.message name
  | noInput => text "no input\n" ++ usageText
  | stdin reason => reason
  | load (.mismatch bracket) => bracket.message
  | load (.refused reason) => reason
  | .crash wreck => wreck.fault.message
  | write failure => failure.reason

/-- What was being done. -/
def context? : Failure → Option Bytes
  | programFile _ _ => some (text "load program")
  | inputFile _ _ => some (text "load input")
  | stdin _ => some (text "read stdin")
  | load (.mismatch _) => some (text "jump table")
  | .crash wreck => some wreck.context
  | write _ => some WriteFailure.context
  | _ => none

/-- The text of a failure; a verbose one has the context below, and stack traces are left out. -/
def message (verbose : Bool) (failure : Failure) : Bytes :=
  match failure.context? with
  | none => failure.cause
  | some context =>
      if verbose then failure.cause ++ text "\n" ++ context
      else context ++ text ": " ++ failure.cause

end Failure
end BitTape
