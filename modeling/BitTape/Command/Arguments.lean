import BitTape.Command.Flag

/-!
# Arguments of the command

Flags and operands may be mixed, and two dashes by themselves end the flags.  Letters may be grouped
behind one dash.  A value follows its flag behind an equals sign, or is the rest of a group of
letters, or is the next argument.
-/

namespace BitTape

/-- What the flags ask for. -/
structure Settings where
  /-- Name of the program file, if the flag was given. -/
  program : Option Bytes
  /-- Program text, if the flag was given. -/
  exec : Option Bytes
  /-- Name of the input file; empty if there is none. -/
  input : Bytes
  /-- The program is an assembly source. -/
  asm : Bool
  disasm : Bool
  /-- Report the state after the run. -/
  dump : Bool
  /-- Print a line feed after the output. -/
  newline : Bool
  verbose : Bool
  version : Bool
  help : Bool
  format : OutputFormat
  deriving DecidableEq

/-- What is asked for without flags. -/
def Settings.default : Settings :=
  { program := none, exec := none, input := [], asm := false, disasm := false, dump := false
    newline := true, verbose := false, version := false, help := false, format := .raw }

/-- The value of a switch that is given as text. -/
def switchValue? (value : Bytes) : Option Bool :=
  if ["1", "t", "T", "true", "TRUE", "True"].any (text · == value) then some true
  else if ["0", "f", "F", "false", "FALSE", "False"].any (text · == value) then some false
  else none

/-- How a flag was written whose value is missing. -/
inductive Spelling where
  | long (argument : Bytes)
  /-- By its letter, in what was left of a group. -/
  | short (letter : UInt8) (group : Bytes)
  deriving DecidableEq

/-- A letter between quotation marks, as the character with that code. -/
def quotedLetter (letter : UInt8) : Bytes :=
  quotedChar (Char.ofNat letter.toNat)

/-- How a flag is shown as it was written. -/
def Spelling.message : Spelling → Bytes
  | long argument => argument
  | short letter group => quotedLetter letter ++ text " in -" ++ group

/-- Why a value was refused. -/
inductive ValueError where
  /-- The value of a switch is neither true nor false. -/
  | notSwitch (value : Bytes)
  /-- There is no such output format. -/
  | unsupported (error : OutputFormat.Unsupported)
  deriving DecidableEq

/-- How a refused value is reported. -/
def ValueError.message : ValueError → Bytes
  | notSwitch value =>
      text "strconv.ParseBool: parsing " ++ quoted value ++ text ": invalid syntax"
  | unsupported error => error.message

/-- What is wrong with the arguments. -/
inductive UsageError where
  /-- There is no flag of that name. -/
  | unknownName (name : Bytes)
  /-- There is no flag of that letter, with which the rest of a group starts. -/
  | unknownLetter (letter : UInt8) (group : Bytes)
  /-- Two dashes are followed by a dash or an equals sign. -/
  | badSyntax (argument : Bytes)
  /-- The last flag lacks its value. -/
  | missingValue (spelling : Spelling)
  /-- A value was refused. -/
  | invalidValue (flag : Flag) (value : Bytes) (error : ValueError)
  /-- There is more than one operand. -/
  | manyOperands (count : Nat)
  /-- The program is given both as a file and as text. -/
  | twoPrograms
  deriving DecidableEq

/-- How wrong arguments are reported. -/
def UsageError.message : UsageError → Bytes
  | unknownName name => text "unknown flag: --" ++ name
  | unknownLetter letter group =>
      text "unknown shorthand flag: " ++ quotedLetter letter ++ text " in -" ++ group
  | badSyntax argument => text "bad flag syntax: " ++ argument
  | missingValue spelling => text "flag needs an argument: " ++ spelling.message
  | invalidValue flag value error =>
      text "invalid argument " ++ quoted value ++ text " for " ++ quoted flag.title ++
        text " flag: " ++ error.message
  | manyOperands count => text "accepts at most 1 arg(s), received " ++ decimal count
  | twoPrograms =>
      text ("if any flags in the group [program exec] are set none of the others can be; " ++
        "[exec program] were all set")

namespace Settings

/-- Store the value of a switch. -/
def setSwitch (settings : Settings) (flag : Flag) (on : Bool) : Settings :=
  match flag with
  | .asm => { settings with asm := on }
  | .disasm => { settings with disasm := on }
  | .dump => { settings with dump := on }
  | .help => { settings with help := on }
  | .newline => { settings with newline := on }
  | .verbose => { settings with verbose := on }
  | .version => { settings with version := on }
  | .exec | .format | .input | .program => settings

/-- Store the value of a flag. -/
def set (settings : Settings) (flag : Flag) (value : Bytes) : Except UsageError Settings :=
  match flag with
  | .exec => .ok { settings with exec := some value }
  | .program => .ok { settings with program := some value }
  | .input => .ok { settings with input := value }
  | .format =>
      match OutputFormat.ofName value with
      | .ok format => .ok { settings with format }
      | .error error => .error (.invalidValue flag value (.unsupported error))
  | flag =>
      match switchValue? value with
      | some on => .ok (settings.setSwitch flag on)
      | none => .error (.invalidValue flag value (.notSwitch value))

end Settings

/-- A flag whose value is to come. -/
structure Awaited where
  flag : Flag
  /-- How it was written. -/
  spelling : Spelling
  deriving DecidableEq

/-- What has been made of the arguments so far. -/
structure Parsed where
  /-- Values of the flags. -/
  settings : Settings
  /-- Arguments that are neither flags nor their values. -/
  operands : Array Bytes
  /-- A flag to which the next argument belongs. -/
  awaited : Option Awaited
  /-- The flags have been ended. -/
  ended : Bool
  deriving DecidableEq

/-- The dash before a letter, and the two before a name. -/
def dash : UInt8 :=
  ascii '-'

/-- The sign between a flag and its value. -/
def equals : UInt8 :=
  ascii '='

/-- The start of an option of a test runner. -/
def testOption : Bytes :=
  text "test."

namespace Parsed

/-- No argument seen yet. -/
def start : Parsed :=
  { settings := .default, operands := #[], awaited := none, ended := false }

/-- Store the value of a flag. -/
def set (parsed : Parsed) (flag : Flag) (value : Bytes) : Except UsageError Parsed :=
  (parsed.settings.set flag value).map fun settings => { parsed with settings, awaited := none }

/-- Wait for the value of a flag. -/
def await (parsed : Parsed) (flag : Flag) (spelling : Spelling) : Parsed :=
  { parsed with awaited := some ⟨flag, spelling⟩ }

/-- Take in an argument that is neither a flag nor a value. -/
def addOperand (parsed : Parsed) (argument : Bytes) : Parsed :=
  { parsed with operands := parsed.operands.push argument }

/-- A flag by its name, which follows two dashes and may have a value behind an equals sign. -/
def takeLong (parsed : Parsed) (body : Bytes) : Except UsageError Parsed :=
  let argument := dash :: dash :: body
  if body.head? = some dash ∨ body.head? = some equals then
    .error (.badSyntax argument)
  else
    let name := body.takeWhile (· != equals)
    match Flag.ofName? name with
    | none => .error (.unknownName name)
    | some flag =>
        match body.drop name.length with
        | _ :: value => parsed.set flag value
        | [] =>
            if flag.isSwitch then parsed.set flag (text "true")
            else .ok (parsed.await flag (.long argument))

/-- A group of letters, the rest of which is passed over if it looks like an option of a test
runner. -/
def takeLetters (parsed : Parsed) : Bytes → Except UsageError Parsed
  | [] => .ok parsed
  | letter :: rest =>
      if testOption.isPrefixOf (letter :: rest) then
        .ok parsed
      else
        match Flag.ofLetter? letter with
        | none => .error (.unknownLetter letter (letter :: rest))
        | some flag =>
            if rest.head? = some equals ∧ 1 < rest.length then
              parsed.set flag rest.tail
            else if flag.isSwitch then
              match parsed.set flag (text "true") with
              | .ok next => next.takeLetters rest
              | .error error => .error error
            else if rest.isEmpty then
              .ok (parsed.await flag (.short letter [letter]))
            else
              parsed.set flag rest

/-- Take in an argument. -/
def take (parsed : Parsed) (argument : Bytes) : Except UsageError Parsed :=
  match parsed.awaited with
  | some awaited => parsed.set awaited.flag argument
  | none =>
      if parsed.ended then
        .ok (parsed.addOperand argument)
      else
        match argument with
        | first :: second :: rest =>
            if first != dash then
              .ok (parsed.addOperand argument)
            else if second != dash then
              parsed.takeLetters (second :: rest)
            else if rest.isEmpty then
              .ok { parsed with ended := true }
            else
              parsed.takeLong rest
        | _ => .ok (parsed.addOperand argument)

end Parsed

/-- What the arguments ask for. -/
structure Request where
  /-- Values of the flags. -/
  settings : Settings
  /-- The input given as an argument, if there is one. -/
  operand : Option Bytes
  deriving DecidableEq

/-- The flags and operands of an argument list. -/
def parseFlags (arguments : List Bytes) : Except UsageError (Settings × List Bytes) :=
  match arguments.foldlM Parsed.take Parsed.start with
  | .error error => .error error
  | .ok parsed =>
      match parsed.awaited with
      | some awaited => .error (.missingValue awaited.spelling)
      | none => .ok (parsed.settings, parsed.operands.toList)

/-- Check that there is at most one operand and at most one program. -/
def Request.check (settings : Settings) (operands : List Bytes) : Except UsageError Request :=
  if 1 < operands.length then .error (.manyOperands operands.length)
  else if settings.program.isSome ∧ settings.exec.isSome then .error .twoPrograms
  else .ok { settings, operand := operands.head? }

end BitTape
