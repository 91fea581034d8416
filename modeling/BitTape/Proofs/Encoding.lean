import BitTape.Text.Glyph

/-!
# Encoded texts

`encode` is the UTF-8 encoding of a sequence of characters.  The glyphs of an encoded text are its
characters, so no two texts are encoded alike, and a byte string without stray bytes is an encoded
text.
-/

namespace BitTape

/-- The UTF-8 encoding of characters. -/
def encode (chars : List Char) : Bytes :=
  chars.flatMap String.utf8EncodeChar

theorem encode_cons (char : Char) (rest : List Char) :
    encode (char :: rest) = String.utf8EncodeChar char ++ encode rest := rfl

@[simp]
theorem encode_append (front back : List Char) :
    encode (front ++ back) = encode front ++ encode back :=
  List.flatMap_append

theorem leadingChar?_encode (char : Char) (rest : Bytes) :
    leadingChar? (String.utf8EncodeChar char ++ rest) = some char := by
  have short : (String.utf8EncodeChar char).length ≤ 4 := by
    rw [String.length_utf8EncodeChar]
    exact char.utf8Size_le_four
  rw [leadingChar?, List.take_append, List.take_of_length_le short, List.toByteArray_append]
  exact ByteArray.utf8DecodeChar?_utf8EncodeChar_append

theorem glyphs_utf8EncodeChar_append (char : Char) (rest : Bytes) :
    glyphs (String.utf8EncodeChar char ++ rest) = .char char :: glyphs rest := by
  have length_eq := String.length_utf8EncodeChar char
  cases bytes : String.utf8EncodeChar char with
  | nil =>
      have positive := char.utf8Size_pos
      rw [← length_eq, bytes] at positive
      cases positive
  | cons byte more =>
      have found := leadingChar?_encode char rest
      rw [bytes, List.length_cons] at length_eq
      rw [bytes, List.cons_append] at found
      rw [List.cons_append, glyphs, pieces_cons, Glyph.first, found]
      simp only [← length_eq, Nat.add_sub_cancel, List.drop_left]
      rw [← glyphs]

/-- The glyphs of an encoded text are its characters. -/
theorem glyphs_encode (chars : List Char) : glyphs (encode chars) = chars.map .char := by
  induction chars with
  | nil => rfl
  | cons char rest ih => rw [encode_cons, glyphs_utf8EncodeChar_append, ih, List.map_cons]

theorem encode_injective {first second : List Char} (same : encode first = encode second) :
    first = second := by
  have sameGlyphs := congrArg glyphs same
  rw [glyphs_encode, glyphs_encode] at sameGlyphs
  exact (List.map_inj_right fun _ _ => Glyph.char.inj).mp sameGlyphs

/-- Glyphs without stray bytes are the characters of a text. -/
theorem exists_chars_of_glyphs {found : List Glyph}
    (clean : ∀ glyph ∈ found, ∃ char, glyph = .char char) :
    ∃ chars : List Char, found = chars.map .char := by
  induction found with
  | nil => exact ⟨[], rfl⟩
  | cons glyph rest ih =>
      obtain ⟨char, rfl⟩ := clean _ List.mem_cons_self
      obtain ⟨chars, rfl⟩ := ih fun other isRest => clean other (List.mem_cons_of_mem _ isRest)
      exact ⟨char :: chars, rfl⟩

/-- A byte string with the glyphs of a text is the encoding of that text. -/
theorem eq_encode_of_glyphs {bytes : Bytes} {chars : List Char}
    (found : glyphs bytes = chars.map .char) : bytes = encode chars := by
  rw [← flatMap_bytes_glyphs bytes, found, List.flatMap_map]
  rfl

/-! ## Plain texts -/

theorem utf8EncodeChar_of_small {char : Char} (small : char.toNat < 128) :
    String.utf8EncodeChar char = [ascii char] := by
  have below : char.val.toNat ≤ 127 := Nat.le_of_lt_succ small
  simp only [String.utf8EncodeChar, below, if_true]
  rfl

theorem encode_of_small {chars : List Char} (small : ∀ char ∈ chars, char.toNat < 128) :
    encode chars = chars.map ascii := by
  induction chars with
  | nil => rfl
  | cons char rest ih =>
      rw [encode_cons, utf8EncodeChar_of_small (small char List.mem_cons_self),
        ih fun other isRest => small other (List.mem_cons_of_mem _ isRest)]
      rfl

end BitTape
