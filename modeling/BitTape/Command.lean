import BitTape.Assembly
import BitTape.Command.Failure
import BitTape.Echo
import BitTape.Listing

/-!
# The command

The command loads a program, perhaps from assembly source, and either lists it or runs it on an
input and prints the output.  What it prints on standard output comes last, so that a failure before
leaves standard output empty.  A log line has the time, the level, a message and fields.
-/

namespace BitTape

/-- A byte that needs no quotation marks in a log line. -/
def isPlain (byte : UInt8) : Bool :=
  let char := Char.ofNat byte.toNat
  char.isAlphanum || "-._/@^+".contains char

/-- A value in a log line. -/
def logValue (value : Bytes) : Bytes :=
  if value.all isPlain then value else quoted value

/-- A truth value in a log line. -/
def logBool (value : Bool) : Bytes :=
  text (if value then "true" else "false")

/-- A log line: the time, the message, and names of fields with their values. -/
def logLine (now : Bytes) (message : String) (fields : List (String × Bytes)) : Bytes :=
  text "time=" ++ quoted now ++ text " level=debug msg=" ++ logValue (text message) ++
    fields.flatMap (fun (name, value) => text " " ++ text name ++ text "=" ++ value) ++ text "\n"

/-- The output streams of the command. -/
structure Console where
  out : Sink
  err : Sink
  deriving DecidableEq

namespace Console

/-- Write to standard output up to the first failure. -/
def print (console : Console) (chunks : List Bytes) : Console × Option Failure :=
  let (out, failure) := writeGuarded console.out chunks
  ({ console with out }, failure.map .write)

/-- Write to standard error up to the first failure. -/
def printError (console : Console) (chunks : List Bytes) : Console × Option Failure :=
  let (err, failure) := writeGuarded console.err chunks
  ({ console with err }, failure.map .write)

/-- Write a line to standard error, whether that succeeds or not. -/
def note (console : Console) (line : Bytes) : Console :=
  { console with err := writeRegardless console.err [line] }

/-- Write a log line if they are asked for. -/
def log (console : Console) (settings : Settings) (line : Bytes) : Console :=
  if settings.verbose then console.note line else console

end Console

/-- The text of a program and the name of its source. -/
structure ProgramText where
  name : Bytes
  bytes : Bytes
  deriving DecidableEq

/-- The program asked for: the given text or file, where an empty text or name stands for none, else
the block copy program. -/
def programText (host : Host) (settings : Settings) : Except Failure ProgramText :=
  match settings.exec.getD [], settings.program.getD [] with
  | [], [] =>
      .ok
        { name := text "echo"
          bytes := if settings.asm then Echo.source else Echo.program }
  | [], name =>
      match host.files name with
      | .ok bytes => .ok { name, bytes }
      | .error error => .error (.programFile name error)
  | bytes, _ => .ok { name := text "exec", bytes }

/-- The program that a program text stands for. -/
def compile (settings : Settings) (program : ProgramText) : Except Failure Bytes :=
  if settings.asm then
    match assemble { bytes := program.bytes, failure := none } with
    | .ok code => .ok code
    | .error diagnostics => .error (.assembly program.name diagnostics)
  else
    .ok program.bytes

/-- The input asked for: the argument, or the given file, else standard input. -/
def inputBytes (host : Host) (request : Request) : Except Failure Bytes :=
  match request.operand, request.settings.input with
  | some bytes, [] => .ok bytes
  | some _, _ => .error .twoInputs
  | none, [] =>
      match host.stdin with
      | .terminal => .error .noInput
      | .stream bytes none => .ok bytes
      | .stream _ (some reason) => .error (.stdin reason)
  | none, name =>
      match host.files name with
      | .ok bytes => .ok bytes
      | .error error => .error (.inputFile name error)

/-- The log line about a program that has been found. -/
def loadedLine (host : Host) (settings : Settings) (program : ProgramText) : Bytes :=
  logLine host.now "program loaded"
    [("asm", logBool settings.asm), ("program", logValue program.name),
      ("size", decimal program.bytes.length)]

/-- The log line about a finished run. -/
def completeLine (host : Host) (input : Bytes) (machine : Machine) : Bytes :=
  logLine host.now "run complete"
    [("elapsed", logValue host.elapsed), ("input", decimal input.length),
      ("instructions", decimal machine.executed), ("output", decimal machine.output.size),
      ("tape", signedDecimal machine.tape.length.toInt)]

/-- Report the final state of a machine if that is asked for, and print its output. -/
def finish (settings : Settings) (console : Console) (machine : Machine) :
    Console × Option Failure :=
  let (console, failure) :=
    if settings.dump then console.printError machine.report else (console, none)
  match failure with
  | some failure => (console, some failure)
  | none => console.print (settings.format.chunks settings.newline machine)

/-- Run a program on the input asked for. -/
def runProgram (steps : Nat) (host : Host) (request : Request) (console : Console)
    (program : Bytes) : Option (Console × Option Failure) :=
  match inputBytes host request with
  | .error failure => some (console, some failure)
  | .ok input =>
      match Machine.load program [.input input] with
      | .error error => some (console, some (.load error))
      | .ok machine =>
          match machine.run steps with
          | none => none
          | some (.error crash) => some (console, some (.crash crash))
          | some (.ok final) =>
              let console := console.log request.settings (completeLine host input final)
              some (finish request.settings console final)

/-- Find the program and list it or run it. -/
def execute (steps : Nat) (host : Host) (request : Request) (console : Console) :
    Option (Console × Option Failure) :=
  match programText host request.settings with
  | .error failure => some (console, some failure)
  | .ok program =>
      let console := console.log request.settings (loadedLine host request.settings program)
      match compile request.settings program with
      | .error failure => some (console, some failure)
      | .ok code =>
          if request.settings.disasm then some (console.print (listing code))
          else runProgram steps host request console code

/-- The version, in the chunks in which it is written. -/
def versionText (host : Host) : List Bytes :=
  [text "bitvm ",
    if host.version.isEmpty then host.build.getD (text "(unknown version)") else host.version,
    text "\n"]

/-- Print help; a failure is noted on standard error and otherwise ignored. -/
def printHelp (console : Console) : Console :=
  match writeGuarded console.out helpText with
  | (out, none) => { console with out }
  | (out, some failure) => { console with out }.note (failure.reason ++ text "\n")

/-- The end of a command. -/
structure Result where
  /-- Exit status: zero for success and one for failure. -/
  status : Nat
  console : Console
  deriving DecidableEq

/-- End with success, or with a failure that is noted on standard error. -/
def conclude (verbose : Bool) : Console × Option Failure → Result
  | (console, none) => { status := 0, console }
  | (console, some failure) =>
      { status := 1
        console := console.note (text "bitvm: " ++ failure.message verbose ++ text "\n") }

/-- The command, without a result if the program needs more than `steps` instructions.  Wrong flags
come first, then help, the number of operands, the choice of a program and the version. -/
def command (steps : Nat) (host : Host) (arguments : List Bytes) (console : Console) :
    Option Result :=
  match parseFlags arguments with
  | .error error => some (conclude false (console, some (.usage error)))
  | .ok (settings, operands) =>
      if settings.help then
        some { status := 0, console := printHelp console }
      else
        match Request.check settings operands with
        | .error error => some (conclude settings.verbose (console, some (.usage error)))
        | .ok request =>
            if settings.version then
              some
                { status := 0
                  console :=
                    { console with out := writeRegardless console.out (versionText host) } }
            else
              (execute steps host request console).map (conclude settings.verbose)

end BitTape
