import BitTape.Machine
import BitTape.Text.Quoted

/-!
# What is printed of a machine

A report shows the counters of a machine, its tape with the cell under the head in brackets, and
its output.  The output alone is printed as it is, in hexadecimal or bit by bit.  Either is a list
of chunks, each of which is written by a call of its own.
-/

namespace BitTape

/-- Bits as chunks of one digit each. -/
def bitChunks (bits : List Bool) : List Bytes :=
  bits.map fun bit => [bitDigit bit]

/-- The state of a machine as text. -/
def Machine.report (machine : Machine) : List Bytes :=
  let cells := machine.tape.bits
  let pointer := machine.pointer.toNatClampNeg
  [text "pc: " ++ signedDecimal machine.counter ++ text "/" ++ decimal machine.code.size ++
      text ", instructions: " ++ decimal machine.executed ++ text ", input: " ++
      decimal machine.input.position ++ text "/" ++ decimal machine.input.size ++ text " bits\n",
    text "tape: " ++ decimal cells.length ++ text " cells, pointer: " ++
      signedDecimal machine.pointer.toInt ++ text "\n"] ++
  bitChunks (cells.take pointer) ++ [text "["] ++
  bitChunks ((cells.drop pointer).take 1) ++ [text "]"] ++
  bitChunks (cells.drop (pointer + 1)) ++
  [text "\noutput: " ++ decimal machine.output.size ++ text " bits\n"] ++
  bitChunks machine.output.toList ++ [text "\n"]

/-- A way to print output bits. -/
inductive OutputFormat where
  | raw
  /-- Two hexadecimal digits for each byte. -/
  | hex
  /-- A digit for each bit. -/
  | bits
  deriving DecidableEq

namespace OutputFormat

/-- All formats. -/
def all : List OutputFormat :=
  [raw, hex, bits]

/-- The name of a format. -/
def name : OutputFormat → Bytes
  | raw => text "raw"
  | hex => text "hex"
  | bits => text "bits"

/-- What a name of a format is called in the usage text. -/
def valueName : Bytes :=
  text "format"

/-- A name that no format has. -/
structure Unsupported where
  name : Bytes
  deriving DecidableEq

/-- How an unsupported format is reported. -/
def Unsupported.message (error : Unsupported) : Bytes :=
  text "unsupported output format " ++ quoted error.name

/-- The format of a given name. -/
def ofName (name : Bytes) : Except Unsupported OutputFormat :=
  match all.find? fun format => format.name == name with
  | some format => .ok format
  | none => .error ⟨name⟩

/-- The output of a machine in a format, perhaps with a line feed at its end. -/
def chunks (format : OutputFormat) (newline : Bool) (machine : Machine) : List Bytes :=
  (match format with
    | raw => [machine.outputBytes]
    | hex => [hexadecimal machine.outputBytes]
    | bits => bitChunks machine.output.toList) ++
    if newline then [text "\n"] else []

end OutputFormat

end BitTape
