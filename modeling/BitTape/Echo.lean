import BitTape.Machine.Load

/-!
# The block copy program

The program reads bytes into blocks of eight cells, each followed by a marker cell, until it meets a
zero byte or the end of the input.  Then it writes the blocks back, the last one first.
-/

namespace BitTape
namespace Echo

/-- The program. -/
def program : Bytes :=
  text (
    ">,>,>,>,>,>,>,>,>+<<<<<<<<+[>+]<[<]>>>>>>>>>[+<<<<<<<<[>]+<[+<]>>>>>>>>>>,>,>,>,>,>," ++
    ">,>,>+<<<<<<<<+[>+]<[<]>>>>>>>>>]<[+<]+<<<<<<<<+[>+]<[<]>>>>>>>>>[+<<<<<<<<[>]+<[+<]" ++
    ">;>;>;>;>;>;>;>;<<<<<<<<+<<<<<<<<+[>+]<[<]>>>>>>>>>]<[+<]")

/-- The program in assembly form. -/
def source : Bytes :=
  text (
    "( read a byte into cells 1 to 8, one bit per cell, then set the\n" ++
    "  marker cell 9 )\n" ++
    ">,*8 right flip left*8\n" ++
    "( clear the marker if the byte is zero )\n" ++
    "flip loop right flip end left loop left end right*9\n" ++
    "\n" ++
    "( loop on blocks, shifting each new one to the right of the previous )\n" ++
    "loop\n" ++
    "\tflip left*8 loop right end flip left loop flip left end right*9\n" ++
    "\t>,*8 right flip left*8\n" ++
    "\tflip loop right flip end left loop left end right*9\n" ++
    "end\n" ++
    "left loop flip left end\n" ++
    "\n" ++
    "( write the blocks back, last read first )\n" ++
    "flip left*8 flip loop right flip end left loop left end right*9\n" ++
    "loop\n" ++
    "\tflip left*8 loop right end flip left loop flip left end\n" ++
    "\t>;*8 left*8 flip left*8\n" ++
    "\tflip loop right flip end left loop left end right*9\n" ++
    "end\n" ++
    "left loop flip left end\n")

/-- The output of the program, if it needs at most `steps` instructions. -/
def run (steps : Nat) (input : Bytes) : Option (Except InterpretError Bytes) :=
  interpret steps program input

end Echo
end BitTape
