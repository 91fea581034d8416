import BitTape.Text.Quoted

/-!
# Diagnostics

What an assembler may complain about, where in a source, and how complaints are printed.  A position
has a byte offset from zero, and a line and a column from one.  Columns count glyphs, and a line
feed is the last glyph of its line.
-/

namespace BitTape

/-- A place in a source. -/
structure Position where
  /-- Number of bytes before it. -/
  offset : Nat
  /-- Line number, from one. -/
  line : Nat
  /-- Column number, from one. -/
  column : Nat
  deriving DecidableEq

namespace Position

/-- The beginning of a source. -/
def start : Position :=
  { offset := 0, line := 1, column := 1 }

/-- The position behind a glyph that stands at a position. -/
def after (position : Position) (glyph : Glyph) : Position :=
  if glyph = .char '\n' then
    { offset := position.offset + glyph.size, line := position.line + 1, column := 1 }
  else
    { position with
      offset := position.offset + glyph.size
      column := position.column + 1 }

end Position

/-- Something wrong with a source. -/
inductive Complaint where
  /-- Reading the source failed, for a reason given as text. -/
  | readFailure (reason : Bytes)
  /-- A byte belongs to no character. -/
  | invalidEncoding
  /-- There is a character with code zero. -/
  | nul
  /-- A character neither is blank nor belongs to a word. -/
  | unexpectedChar (char : Char)
  /-- What follows the last star of a word is not a positive number. -/
  | invalidCount (word : Bytes)
  /-- The repeat count of a word is above the limit. -/
  | largeCount (word : Bytes)
  /-- A word has a repeat count and nothing else. -/
  | missingInstruction (word : Bytes)
  /-- A word, without its repeat count, is no instruction. -/
  | unknownInstruction (base : Bytes)
  /-- A comment has no end. -/
  | unterminatedComment
  deriving DecidableEq

/-- The text of a complaint. -/
def Complaint.message : Complaint → Bytes
  | readFailure reason => reason
  | invalidEncoding => text "invalid UTF-8 encoding"
  | nul => text "invalid character NUL"
  | unexpectedChar char => text "unexpected character " ++ quotedChar char
  | invalidCount word => text "invalid repeat count: " ++ word
  | largeCount word => text "repeat count too large: " ++ word
  | missingInstruction word => text "missing instruction: " ++ word
  | unknownInstruction base => text "unknown instruction: " ++ base
  | unterminatedComment => text "unterminated comment"

/-- A complaint about a place in a source. -/
structure Diagnostic where
  position : Position
  complaint : Complaint
  deriving DecidableEq

/-- A line of an error report.  A line number that is not positive says that there is none. -/
structure ReportEntry where
  /-- Name of the source, which may be empty. -/
  file : Bytes
  offset : Int
  line : Int
  column : Int
  /-- What is wrong there. -/
  message : Bytes
  deriving DecidableEq

namespace ReportEntry

/-- The text of a report line, without a line feed. -/
def render (entry : ReportEntry) : Bytes :=
  (if entry.file.isEmpty then text "<input>" else entry.file) ++
    (if 0 < entry.line then
      text ":" ++ signedDecimal entry.line ++ text ":" ++ signedDecimal entry.column
    else []) ++
    text ": " ++ entry.message

/-- The text of a report: its lines with line feeds between them. -/
def renderAll (entries : List ReportEntry) : Bytes :=
  joinWith (text "\n") (entries.map render)

end ReportEntry

/-- A diagnostic as a report line about a named source. -/
def Diagnostic.entry (file : Bytes) (diagnostic : Diagnostic) : ReportEntry :=
  { file
    offset := diagnostic.position.offset
    line := diagnostic.position.line
    column := diagnostic.position.column
    message := diagnostic.complaint.message }

/-- The report about a named source. -/
def report (file : Bytes) (diagnostics : List Diagnostic) : Bytes :=
  ReportEntry.renderAll (diagnostics.map (·.entry file))

end BitTape
