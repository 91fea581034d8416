import BitTape.Text.CharClass
import BitTape.Text.Glyph

/-!
# Quoted text

Texts and characters are quoted so that they print: the quotation mark and the backslash are
escaped, printable characters stand for themselves, and all else is written as an escape.
-/

namespace BitTape

/-- The mark around a quoted character. -/
def singleQuote : Char :=
  Char.ofNat 0x27

/-- The mark around a quoted text. -/
def doubleQuote : Char :=
  Char.ofNat 0x22

/-- The character that starts an escape. -/
def backslash : Char :=
  Char.ofNat 0x5c

/-- Control characters with an escape letter of their own. -/
def escapeLetter? (char : Char) : Option Char :=
  [(7, 'a'), (8, 'b'), (12, 'f'), (10, 'n'), (13, 'r'), (9, 't'), (11, 'v')].lookup char.toNat

/-- A letter and a number of hexadecimal digits after a backslash. -/
def hexEscape (letter : Char) (width number : Nat) : Bytes :=
  [ascii backslash, ascii letter] ++ hexDigits width number

/-- One character inside the given quotation marks. -/
def escaped (quote char : Char) : Bytes :=
  if char = quote ∨ char = backslash then
    [ascii backslash, ascii char]
  else if isPrintable char then
    String.utf8EncodeChar char
  else
    match escapeLetter? char with
    | some letter => [ascii backslash, ascii letter]
    | none =>
        if char.toNat < 0x20 ∨ char.toNat = 0x7f then hexEscape 'x' 2 char.toNat
        else if char.toNat < 0x10000 then hexEscape 'u' 4 char.toNat
        else hexEscape 'U' 8 char.toNat

/-- A character between single quotation marks. -/
def quotedChar (char : Char) : Bytes :=
  [ascii singleQuote] ++ escaped singleQuote char ++ [ascii singleQuote]

/-- A text between double quotation marks; a stray byte is written in hexadecimal. -/
def quoted (bytes : Bytes) : Bytes :=
  let inside := (glyphs bytes).flatMap fun
    | .char char => escaped doubleQuote char
    | .stray byte _ => hexEscape 'x' 2 byte.toNat
  [ascii doubleQuote] ++ inside ++ [ascii doubleQuote]

end BitTape
