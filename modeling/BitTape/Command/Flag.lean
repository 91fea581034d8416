import BitTape.Machine.Report

/-!
# Flags of the command

Every flag has a name and most have a letter.  A switch is turned on by its mere presence; any other
flag takes a value.
-/

namespace BitTape

/-- A flag. -/
inductive Flag where
  /-- The program is an assembly source. -/
  | asm
  /-- Print a listing of the program. -/
  | disasm
  /-- Report the state of the machine after the run. -/
  | dump
  | exec
  | format
  | help
  | input
  /-- Print a line feed after the output. -/
  | newline
  | program
  | verbose
  | version
  deriving DecidableEq

namespace Flag

/-- All flags, in the order of their names. -/
def all : List Flag :=
  [asm, disasm, dump, exec, format, help, input, newline, program, verbose, version]

/-- The name of a flag. -/
def name : Flag → Bytes
  | asm => text "asm"
  | disasm => text "disasm"
  | dump => text "dump"
  | exec => text "exec"
  | format => text "format"
  | help => text "help"
  | input => text "input"
  | newline => text "newline"
  | program => text "program"
  | verbose => text "verbose"
  | version => text "version"

/-- The letter of a flag. -/
def letter? : Flag → Option UInt8
  | asm => some (ascii 'a')
  | disasm => some (ascii 'd')
  | exec => some (ascii 'e')
  | format => some (ascii 'f')
  | help => some (ascii 'h')
  | input => some (ascii 'i')
  | newline => some (ascii 'n')
  | program => some (ascii 'p')
  | verbose => some (ascii 'v')
  | dump | version => none

/-- What the value of a flag is called; a switch has none. -/
def valueName? : Flag → Option Bytes
  | exec => some (text "text")
  | format => some OutputFormat.valueName
  | input | program => some (text "filename")
  | _ => none

/-- A flag that takes no value of its own. -/
def isSwitch (flag : Flag) : Bool :=
  flag.valueName?.isNone

/-- What a flag does. -/
def summary : Flag → Bytes
  | asm => text "the program is in assembly form"
  | disasm => text "print the program disassembly and exit"
  | dump => text "dump the VM state to stderr after the run"
  | exec => text "program text"
  | format => text "output format: raw, hex or bits (default raw)"
  | help => text "help for bitvm"
  | input => text "read input from file filename"
  | newline => text "append a new line to the output (default true)"
  | program => text "load program from file filename"
  | verbose => text "enable debug logging"
  | version => text "print version and exit"

/-- The flag of a given name. -/
def ofName? (name : Bytes) : Option Flag :=
  all.find? fun flag => flag.name == name

/-- The flag of a given letter. -/
def ofLetter? (letter : UInt8) : Option Flag :=
  all.find? fun flag => flag.letter? == some letter

/-- A flag as it is named in error messages. -/
def title (flag : Flag) : Bytes :=
  (match flag.letter? with
    | some letter => text "-" ++ [letter] ++ text ", "
    | none => []) ++ text "--" ++ flag.name

/-- A flag as it is listed in the usage text. -/
def usage (flag : Flag) : Bytes :=
  (match flag.letter? with
    | some _ => text "  "
    | none => text "      ") ++ flag.title ++
    match flag.valueName? with
    | some valueName => text " " ++ valueName
    | none => []

end Flag

/-- Width of the first column of the usage text. -/
def usageWidth : Nat :=
  (Flag.all.map fun flag => flag.usage.length).foldl max 0 + 3

/-- How the command is to be used. -/
def usageText : Bytes :=
  text "Usage:\n  bitvm [flags] [input]\n\nFlags:\n" ++
    Flag.all.flatMap fun flag =>
      flag.usage ++ List.replicate (usageWidth - flag.usage.length) (ascii ' ') ++
        flag.summary ++ text "\n"

/-- Help, in the chunks in which it is written. -/
def helpText : List Bytes :=
  [text "Run a bit tape program on the given input and print its output.", text "\n\n", usageText]

end BitTape
