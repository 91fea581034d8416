import BitTape.Bytes

/-!
# Characters of a byte string

Every byte string is a sequence of glyphs: the UTF-8 encodings of characters, and stray bytes that
belong to no encoding.  Overlong forms, surrogates and code points past the last one are no
encodings.
-/

namespace BitTape

/-- A character, or a byte that belongs to none. -/
inductive Glyph where
  | char (scalar : Char)
  /-- A stray byte; `unfinished` if it begins an encoding that the end of the text cuts short. -/
  | stray (byte : UInt8) (unfinished : Bool)
  deriving DecidableEq

/-- The character whose encoding a byte string starts with. -/
def leadingChar? (bytes : Bytes) : Option Char :=
  (bytes.take 4).toByteArray.utf8DecodeChar? 0

theorem eq_of_leadingChar?_eq_some {bytes : Bytes} {scalar : Char}
    (found : leadingChar? bytes = some scalar) :
    bytes = String.utf8EncodeChar scalar ++ bytes.drop scalar.utf8Size := by
  obtain ⟨tail, split⟩ := ByteArray.exists_of_utf8DecodeChar?_eq_some found
  have front : bytes.take 4 = String.utf8EncodeChar scalar ++ tail.data.toList := by
    simpa using congrArg (fun array => array.data.toList) split
  have whole : bytes = String.utf8EncodeChar scalar ++ (tail.data.toList ++ bytes.drop 4) := by
    rw [← List.append_assoc, ← front, List.take_append_drop]
  have behind : bytes.drop scalar.utf8Size = tail.data.toList ++ bytes.drop 4 := by
    rw [← String.length_utf8EncodeChar]
    conv => lhs; rw [whole]
    exact List.drop_left
  rw [behind]
  exact whole

/-- A byte string that more bytes would complete to the encoding of a character.  If any bytes do,
so do equal ones: the least continuation byte, or the greatest. -/
def isUnfinished (bytes : Bytes) : Bool :=
  [1, 2, 3].any fun missing =>
    [0x80, 0xbf].any fun filler =>
      (leadingChar? (bytes ++ List.replicate missing filler)).any fun scalar =>
        scalar.utf8Size == bytes.length + missing

namespace Glyph

/-- The bytes of a glyph. -/
def bytes : Glyph → Bytes
  | .char scalar => String.utf8EncodeChar scalar
  | .stray byte _ => [byte]

/-- Number of bytes of a glyph. -/
def size (glyph : Glyph) : Nat :=
  glyph.bytes.length

/-- The glyph at the start of a text, and the number of bytes it takes up after the first. -/
def first (byte : UInt8) (rest : Bytes) : Glyph × Nat :=
  match leadingChar? (byte :: rest) with
  | some scalar => (.char scalar, scalar.utf8Size - 1)
  | none => (.stray byte (isUnfinished (byte :: rest.take 3)), 0)

end Glyph

/-- The glyphs of a byte string. -/
def glyphs (bytes : Bytes) : List Glyph :=
  pieces Glyph.first bytes

/-- The glyphs of a byte string hold all of its bytes. -/
theorem flatMap_bytes_glyphs (bytes : Bytes) : (glyphs bytes).flatMap Glyph.bytes = bytes := by
  induction length_eq : bytes.length using Nat.strongRecOn generalizing bytes with
  | _ length ih =>
      cases bytes with
      | nil => rfl
      | cons byte rest =>
          have shorter (count : Nat) : (rest.drop count).length < length := by
            rw [← length_eq, List.length_drop, List.length_cons]
            omega
          rw [glyphs, pieces_cons, List.flatMap_cons]
          change _ ++ (glyphs _).flatMap Glyph.bytes = _
          rw [ih _ (shorter _) _ rfl, Glyph.first]
          cases found : leadingChar? (byte :: rest) with
          | none => rfl
          | some scalar =>
              have behind := eq_of_leadingChar?_eq_some found
              obtain ⟨less, positive⟩ := Nat.exists_eq_add_one.mpr (Char.utf8Size_pos scalar)
              rw [positive, List.drop_succ_cons] at behind
              simpa [Glyph.bytes, positive] using behind.symm

end BitTape
