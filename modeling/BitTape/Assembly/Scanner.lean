import BitTape.Assembly.Diagnostic

/-!
# Reading a source

A source is read glyph by glyph, and its glyphs are divided into blanks, words and odd characters.
Reading a glyph may raise an alarm, and so may the end of the source if it was reached by a failure.

A word or an odd character is complete only when the glyph behind it has been read.  All alarms
raised meanwhile are therefore reported at the start of that word, before anything that is said
about the word itself; an alarm raised between words is reported where it belongs.
-/

namespace BitTape

/-- The bytes of a source, and why reading stopped behind them if it was not their end. -/
structure Source where
  /-- What could be read. -/
  bytes : Bytes
  /-- The failure that ended the reading. -/
  failure : Option Bytes
  deriving DecidableEq

/-- A glyph of a source. -/
structure Mark where
  glyph : Glyph
  position : Position
  /-- What reading it complains about, and where, unless a word is being read. -/
  alarms : List Diagnostic
  deriving DecidableEq

namespace Mark

/-- The character of a glyph that cannot be part of a word; a stray byte can. -/
def outsider? (mark : Mark) : Option Char :=
  match mark.glyph with
  | .char scalar => if isWordChar scalar then none else some scalar
  | .stray _ _ => none

/-- A glyph that can be part of a word. -/
def isWord (mark : Mark) : Bool :=
  mark.outsider?.isNone

/-- A glyph that separates words: a blank character, or a byte order mark at the very start. -/
def isBlank (mark : Mark) : Bool :=
  match mark.glyph with
  | .char scalar => isBlankChar scalar || (scalar.toNat == 0xfeff && mark.position.offset == 0)
  | .stray _ _ => false

end Mark

/-- The alarm of a failed read, placed at the last glyph before it. -/
def readAlarms (failure : Option Bytes) (last : Position) : List Diagnostic :=
  failure.toList.map fun reason => ⟨last, .readFailure reason⟩

/-- The alarms of a glyph.  An unfinished encoding first makes the reader ask for more bytes. -/
def glyphAlarms (failure : Option Bytes) (last position : Position) : Glyph → List Diagnostic
  | .stray _ unfinished =>
      (if unfinished then readAlarms failure last else []) ++ [⟨position, .invalidEncoding⟩]
  | .char scalar => if scalar.toNat = 0 then [⟨position, .nul⟩] else []

/-- Place glyphs from a position on, behind a glyph at `last`: their marks, and the alarms at the
end. -/
def placeFrom (failure : Option Bytes) (last position : Position) :
    List Glyph → List Mark × List Diagnostic
  | [] => ([], readAlarms failure last)
  | glyph :: rest =>
      let (marks, ending) := placeFrom failure position (position.after glyph) rest
      (⟨glyph, position, glyphAlarms failure last position glyph⟩ :: marks, ending)

/-- The marks of a source and the alarms at its end. -/
def Source.marks (source : Source) : List Mark × List Diagnostic :=
  placeFrom source.failure .start .start (glyphs source.bytes)

/-- A part of a source. -/
inductive Lexeme where
  /-- A glyph between words. -/
  | blank (mark : Mark)
  /-- A maximal sequence of word glyphs. -/
  | word (first : Mark) (others : List Mark)
  /-- A character that is neither. -/
  | odd (mark : Mark) (char : Char)
  deriving DecidableEq

namespace Lexeme

/-- The first glyph of a lexeme. -/
def first : Lexeme → Mark
  | blank mark => mark
  | word first _ => first
  | odd mark _ => mark

/-- The glyphs of a lexeme after the first. -/
def others : Lexeme → List Mark
  | word _ others => others
  | _ => []

/-- The lexeme at the start of a source, and the number of glyphs it takes up after the first. -/
def cut (mark : Mark) (rest : List Mark) : Lexeme × Nat :=
  if mark.isBlank then
    (.blank mark, 0)
  else
    match mark.outsider? with
    | some char => (.odd mark char, 0)
    | none =>
        let others := rest.takeWhile Mark.isWord
        (.word mark others, others.length)

end Lexeme

/-- The lexemes of a sequence of glyphs. -/
def lexemes (marks : List Mark) : List Lexeme :=
  pieces Lexeme.cut marks

/-- What reading a source comes upon. -/
inductive Event where
  | alarm (diagnostic : Diagnostic)
  | word (position : Position) (word : Bytes)
  /-- A character outside words. -/
  | odd (position : Position) (char : Char)
  deriving DecidableEq

/-- The alarms of the glyph behind a lexeme, or those at the end. -/
def nextAlarms (ending : List Diagnostic) : List Lexeme → List Diagnostic
  | [] => ending
  | next :: _ => next.first.alarms

/-- Alarms reported at the start of a word. -/
def alarmsAt (position : Position) (alarms : List Diagnostic) : List Event :=
  alarms.map fun alarm => .alarm { alarm with position }

/-- What a lexeme other than a blank stands for. -/
def Lexeme.event? : Lexeme → Option Event
  | .blank _ => none
  | .word first others =>
      some (.word first.position ((first :: others).flatMap fun mark => mark.glyph.bytes))
  | .odd mark char => some (.odd mark.position char)

/-- The events of lexemes; if `pending`, the alarms of the first glyph are still to be reported. -/
def eventsFrom (ending : List Diagnostic) : (pending : Bool) → List Lexeme → List Event
  | pending, [] => if pending then ending.map .alarm else []
  | pending, lexeme :: rest =>
      (if pending then lexeme.first.alarms.map .alarm else []) ++
        match lexeme.event? with
        | none => eventsFrom ending true rest
        | some event =>
            alarmsAt lexeme.first.position
              (lexeme.others.flatMap (·.alarms) ++ nextAlarms ending rest) ++
            event :: eventsFrom ending false rest

/-- The events of a source, in the order in which reading comes upon them. -/
def Source.events (source : Source) : List Event :=
  let (marks, ending) := source.marks
  eventsFrom ending true (lexemes marks)

end BitTape
