/-!
# Byte strings

Programs, inputs and all texts are byte strings, because none of them has to be valid UTF-8.
Groups of bits, characters, words and runs of equal instructions are all found in the same way: look
at the first element and at what follows, decide how far the first piece reaches, and go on behind
it.  `pieces` is that loop, and `pieces_cons` is the only equation that later proofs use.
-/

namespace BitTape

/-- A string of bytes. -/
abbrev Bytes : Type :=
  List UInt8

/-- The UTF-8 encoding of a string. -/
def text (string : String) : Bytes :=
  string.toByteArray.data.toList

/-- The code of an ASCII character. -/
def ascii (char : Char) : UInt8 :=
  char.toNat.toUInt8

/-- A natural number in decimal, without leading zeros. -/
def decimal (number : Nat) : Bytes :=
  (Nat.toDigits 10 number).map ascii

/-- An integer in decimal; a negative one starts with a minus sign. -/
def signedDecimal : Int → Bytes
  | .ofNat number => decimal number
  | .negSucc number => ascii '-' :: decimal (number + 1)

/-- The lowest `width` hexadecimal digits of a number, most significant first. -/
def hexDigits : (width : Nat) → Nat → Bytes
  | 0, _ => []
  | width + 1, number => hexDigits width (number / 16) ++ [ascii (Nat.digitChar (number % 16))]

/-- Two lower case hexadecimal digits for each byte. -/
def hexadecimal (bytes : Bytes) : Bytes :=
  bytes.flatMap fun byte => hexDigits 2 byte.toNat

/-- One bit as the character `0` or `1`. -/
def bitDigit (bit : Bool) : UInt8 :=
  ascii (if bit then '1' else '0')

/-- Texts joined with a separator between neighbours. -/
def joinWith (separator : Bytes) : List Bytes → Bytes
  | [] => []
  | first :: rest => first ++ rest.flatMap (separator ++ ·)

/-- Cut a list whose first `skip` elements belong to a piece that is `done`.  The function `cut`
tells the piece at an element and how many further elements it takes up. -/
def piecesFrom {α β : Type} (cut : α → List α → β × Nat) :
    (skip : Nat) → List α → (done : Array β) → Array β
  | _, [], done => done
  | skip + 1, _ :: rest, done => piecesFrom cut skip rest done
  | 0, first :: rest, done =>
      piecesFrom cut (cut first rest).2 rest (done.push (cut first rest).1)

/-- The pieces of a list, from left to right. -/
def pieces {α β : Type} (cut : α → List α → β × Nat) (list : List α) : List β :=
  (piecesFrom cut 0 list #[]).toList

theorem toList_piecesFrom {α β : Type} (cut : α → List α → β × Nat) (skip : Nat) (list : List α)
    (done : Array β) :
    (piecesFrom cut skip list done).toList = done.toList ++ pieces cut (list.drop skip) := by
  induction list generalizing skip done with
  | nil => simp [piecesFrom, pieces]
  | cons first rest ih =>
      cases skip with
      | zero => simp [piecesFrom, pieces, ih]
      | succ skip => rw [piecesFrom, ih, List.drop_succ_cons]

@[simp]
theorem pieces_nil {α β : Type} (cut : α → List α → β × Nat) : pieces cut [] = [] := rfl

/-- The first piece is what `cut` says; the others are the pieces of what it leaves. -/
theorem pieces_cons {α β : Type} (cut : α → List α → β × Nat) (first : α) (rest : List α) :
    pieces cut (first :: rest) =
      (cut first rest).1 :: pieces cut (rest.drop (cut first rest).2) := by
  rw [pieces, piecesFrom, toList_piecesFrom]
  simp

end BitTape
