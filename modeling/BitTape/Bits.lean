import BitTape.Bytes

/-!
# Bits of bytes

A byte stands for eight bits, the least significant first.  `pack` turns bytes into bits, `unpack`
turns bits into bytes and fills the last byte with zeros.  `InputBits` is a cursor that delivers
zeros once the bits are used up.
-/

namespace BitTape

/-- The eight bits of a byte, least significant first. -/
def bitsOfByte (byte : UInt8) : List Bool :=
  (List.range 8).map byte.toNat.testBit

/-- The byte whose bits, least significant first, are the given ones; missing bits are zeros. -/
def byteOfBits (bits : List Bool) : UInt8 :=
  (bits.foldr (fun bit value => Bool.toNat bit + 2 * value) 0).toUInt8

/-- The bits of a byte string. -/
def pack (bytes : Bytes) : List Bool :=
  bytes.flatMap bitsOfByte

/-- The byte string whose bits start with the given ones and go on with fewer than eight zeros. -/
def unpack (bits : List Bool) : Bytes :=
  pieces (fun bit rest => (byteOfBits (bit :: rest.take 7), 7)) bits

@[simp]
theorem length_bitsOfByte (byte : UInt8) : (bitsOfByte byte).length = 8 := by
  simp [bitsOfByte]

@[simp]
theorem pack_nil : pack [] = [] := rfl

theorem pack_cons (byte : UInt8) (bytes : Bytes) :
    pack (byte :: bytes) = bitsOfByte byte ++ pack bytes := rfl

theorem pack_append (front back : Bytes) : pack (front ++ back) = pack front ++ pack back := by
  simp [pack]

theorem length_pack (bytes : Bytes) : (pack bytes).length = 8 * bytes.length := by
  induction bytes with
  | nil => rfl
  | cons byte bytes ih => simp [pack_cons, ih, Nat.mul_add, Nat.add_comm]

@[simp]
theorem unpack_nil : unpack [] = [] := rfl

theorem unpack_cons (bit : Bool) (rest : List Bool) :
    unpack (bit :: rest) = byteOfBits (bit :: rest.take 7) :: unpack (rest.drop 7) :=
  pieces_cons ..

/-- A cursor over the bits of an input. -/
structure InputBits where
  /-- Number of bits delivered so far, not counting the zeros after the end. -/
  position : Nat
  /-- Bits still to be delivered. -/
  remaining : List Bool
  deriving DecidableEq

namespace InputBits

/-- A cursor before the first bit of a byte string. -/
def ofBytes (bytes : Bytes) : InputBits :=
  { position := 0, remaining := pack bytes }

/-- Deliver the next bit; after the end it is zero and the cursor stays where it is. -/
def next : InputBits → Bool × InputBits
  | ⟨position, []⟩ => (false, ⟨position, []⟩)
  | ⟨position, bit :: remaining⟩ => (bit, ⟨position + 1, remaining⟩)

/-- Number of bits of the whole input. -/
def size (input : InputBits) : Nat :=
  input.position + input.remaining.length

/-- All bits have been delivered. -/
def isExhausted (input : InputBits) : Bool :=
  input.remaining.isEmpty

/-- Deliver a number of bits, in order. -/
def take : Nat → InputBits → List Bool × InputBits
  | 0, input => ([], input)
  | count + 1, input =>
      let (bit, after) := input.next
      let (bits, last) := take count after
      (bit :: bits, last)

theorem size_ofBytes (bytes : Bytes) : (ofBytes bytes).size = 8 * bytes.length := by
  simp [ofBytes, size, length_pack]

@[simp]
theorem size_next (input : InputBits) : input.next.2.size = input.size := by
  obtain ⟨position, remaining⟩ := input
  cases remaining with
  | nil => rfl
  | cons bit remaining => simp [next, size]; omega

end InputBits
end BitTape
