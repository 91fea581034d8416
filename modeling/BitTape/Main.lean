import BitTape.Command

/-!
# Command line

Collects what the command needs from the system, calls it, and prints what it says.
-/

namespace BitTape

/-- The files that an argument list names, and whether standard input is to be read. -/
def needs (arguments : List Bytes) : List Bytes × Bool :=
  match parseFlags arguments with
  | .error _ => ([], false)
  | .ok (settings, operands) =>
      ((settings.program.toList ++ [settings.input]).filter (! ·.isEmpty),
        operands.isEmpty && settings.input.isEmpty &&
          !(settings.help || settings.version || settings.disasm))

/-- Read a file. -/
def readNamed (name : Bytes) : IO (Except FileError Bytes) := do
  match String.fromUTF8? ⟨name.toArray⟩ with
  | none => return .error .missing
  | some path =>
      try
        let content ← IO.FS.readBinFile path
        return .ok content.data.toList
      catch error =>
        return .error <| match error with
          | .permissionDenied .. => .denied
          | .inappropriateType .. => .directory
          | .invalidArgument .. => .invalidName
          | _ => .missing

/-- Read a stream to its end. -/
partial def readAll (stream : IO.FS.Stream) (before : ByteArray) : IO ByteArray := do
  let chunk ← stream.read 65536
  if chunk.isEmpty then return before else readAll stream (before ++ chunk)

/-- Standard input, read to its end unless it is a terminal or not needed. -/
def readStandardInput (needed : Bool) : IO StandardInput := do
  let stdin ← IO.getStdin
  if !needed then
    return .stream [] none
  else if ← stdin.isTty then
    return .terminal
  else
    try
      return .stream (← readAll stdin .empty).data.toList none
    catch error =>
      return .stream [] (some (text error.toString))

/-- What the system offers to the command. -/
def currentHost (arguments : List Bytes) : IO Host := do
  let (names, readsInput) := needs arguments
  let contents ← names.mapM fun name => return (name, ← readNamed name)
  let stdin ← readStandardInput readsInput
  let now ← IO.monoMsNow
  return {
    version := []
    files := fun name => (contents.lookup name).getD (.error .missing)
    stdin
    now := decimal now ++ text "ms"
    elapsed := text "0s" }

/-- More instructions than any run takes. -/
def manySteps : Nat :=
  0x4000000000000000

/-- Run the command on the given arguments and print what it says. -/
def runCommand (arguments : List Bytes) : IO UInt32 := do
  let host ← currentHost arguments
  match command manySteps host arguments ⟨.unlimited, .unlimited⟩ with
  | none => return 1
  | some result =>
      (← IO.getStdout).write ⟨result.console.out.taken⟩
      (← IO.getStderr).write ⟨result.console.err.taken⟩
      return result.status.toUInt32

end BitTape

/-- Run the command on the arguments of the process. -/
def main (arguments : List String) : IO UInt32 :=
  BitTape.runCommand (arguments.map BitTape.text)
