import BitTape.JumpTable

/-!
# Programs as trees

A program whose brackets match is a sequence of commands in which every loop holds the sequence that
it repeats.  `Tree.flatten` spells such a sequence, `Tree.ofProgram?` reads it back, and
`Tree.links` is the part of a jump table that belongs to it.  The scan that builds the jump table
succeeds only on spelled trees, and then its table is the one that the tree describes.
-/

namespace BitTape

/-- A command other than a loop. -/
inductive Action where
  | flip
  | read
  | write
  | left
  | right
  /-- Pass over a byte that is no instruction. -/
  | comment (byte : UInt8) (plain : isInstruction byte = false)
  deriving DecidableEq

namespace Action

def symbol : Action → UInt8
  | flip => Instruction.flip.symbol
  | read => Instruction.read.symbol
  | write => Instruction.write.symbol
  | left => Instruction.left.symbol
  | right => Instruction.right.symbol
  | comment byte _ => byte

/-- The action of a byte that is no bracket. -/
def ofByte? (byte : UInt8) : Option Action :=
  match found : Instruction.ofByte? byte with
  | some .flip => some flip
  | some .read => some read
  | some .write => some write
  | some .left => some left
  | some .right => some right
  | some .loop | some .close => none
  | none => some (comment byte (by simp [isInstruction, found]))

theorem instruction_comment {byte : UInt8} (plain : isInstruction byte = false) :
    Instruction.ofByte? byte = none := by
  simpa [isInstruction] using plain

theorem instruction_symbol_ne (action : Action) (bracket : Instruction)
    (isBracket : bracket = .loop ∨ bracket = .close) :
    Instruction.ofByte? action.symbol ≠ some bracket := by
  rcases isBracket with rfl | rfl <;> cases action <;>
    simp [symbol, Instruction.ofByte?_symbol, instruction_comment, *]

@[simp]
theorem ofByte?_symbol (action : Action) : ofByte? action.symbol = some action := by
  cases action with
  | comment byte plain =>
      have absent := instruction_comment plain
      simp only [symbol, ofByte?]
      split <;> simp_all
  | _ => rfl

theorem symbol_of_ofByte? {byte : UInt8} {action : Action} (found : ofByte? byte = some action) :
    action.symbol = byte := by
  unfold ofByte? at found
  split at found <;> cases found
  case h_8 => rfl
  all_goals exact Instruction.ofByte?_eq_some_iff.mp ‹_›

theorem byte_cases (byte : UInt8) :
    (∃ action : Action, byte = action.symbol) ∨ byte = Instruction.loop.symbol ∨
      byte = Instruction.close.symbol := by
  cases found : ofByte? byte with
  | some action => exact .inl ⟨action, (symbol_of_ofByte? found).symm⟩
  | none =>
      right
      unfold ofByte? at found
      split at found <;> simp only [reduceCtorEq] at found
      · exact .inl (Instruction.ofByte?_eq_some_iff.mp ‹_›).symm
      · exact .inr (Instruction.ofByte?_eq_some_iff.mp ‹_›).symm

end Action

/-- A sequence of commands. -/
inductive Tree where
  | nil
  | act (action : Action) (rest : Tree)
  | loop (body rest : Tree)
  deriving DecidableEq

namespace Tree

/-- The program that spells a tree. -/
def flatten : Tree → Bytes
  | nil => []
  | act action rest => action.symbol :: rest.flatten
  | loop body rest =>
      Instruction.loop.symbol :: (body.flatten ++ Instruction.close.symbol :: rest.flatten)

/-- Number of bytes of the program that spells a tree. -/
def size (tree : Tree) : Nat :=
  tree.flatten.length

@[simp]
theorem size_act (action : Action) (rest : Tree) : (act action rest).size = rest.size + 1 := rfl

@[simp]
theorem size_loop (body rest : Tree) : (loop body rest).size = body.size + rest.size + 2 := by
  simp only [size, flatten, List.length_cons, List.length_append]
  omega

def append : Tree → Tree → Tree
  | nil, back => back
  | act action rest, back => act action (rest.append back)
  | loop body rest, back => loop body (rest.append back)

@[simp]
theorem append_nil (tree : Tree) : tree.append nil = tree := by
  induction tree with
  | nil => rfl
  | act action rest ih => rw [append, ih]
  | loop body rest _ ih => rw [append, ih]

@[simp]
theorem flatten_append (front back : Tree) :
    (front.append back).flatten = front.flatten ++ back.flatten := by
  induction front with
  | nil => rfl
  | act action rest ih => simp [append, flatten, ih]
  | loop body rest _ ih => simp [append, flatten, ih]

/-! ## Reading a tree back -/

/-- Read a program from its end: the tree up to the next unmatched end of a loop, and those between
the unmatched ends that follow. -/
def readBack : Bytes → Option (Tree × List Tree)
  | [] => some (nil, [])
  | byte :: rest =>
      match readBack rest, Action.ofByte? byte with
      | none, _ => none
      | some (tree, outer), some action => some (act action tree, outer)
      | some (tree, outer), none =>
          if byte = Instruction.close.symbol then
            some (nil, tree :: outer)
          else
            match outer with
            | [] => none
            | next :: others => some (loop tree next, others)

def ofProgram? (program : Bytes) : Option Tree :=
  match readBack program with
  | some (tree, []) => some tree
  | _ => none

theorem readBack_act (action : Action) (rest : Bytes) :
    readBack (action.symbol :: rest) =
      (readBack rest).map fun (tree, outer) => (act action tree, outer) := by
  rw [readBack, Action.ofByte?_symbol]
  cases readBack rest <;> rfl

theorem readBack_close (rest : Bytes) :
    readBack (Instruction.close.symbol :: rest) =
      (readBack rest).map fun (tree, outer) => (nil, tree :: outer) := by
  rw [readBack, show Action.ofByte? Instruction.close.symbol = none from rfl]
  cases readBack rest <;> rfl

theorem readBack_loop (rest : Bytes) :
    readBack (Instruction.loop.symbol :: rest) =
      (readBack rest).bind fun
        | (_, []) => none
        | (tree, next :: others) => some (loop tree next, others) := by
  rw [readBack, show Action.ofByte? Instruction.loop.symbol = none from rfl]
  cases readBack rest with
  | none => rfl
  | some read =>
      obtain ⟨tree, outer⟩ := read
      cases outer <;> rfl

theorem readBack_flatten_append (tree : Tree) (rest : Bytes) :
    readBack (tree.flatten ++ rest) =
      (readBack rest).map fun (next, outer) => (tree.append next, outer) := by
  induction tree generalizing rest with
  | nil => simp [flatten, append]
  | act action tree ih =>
      rw [flatten, List.cons_append, readBack_act, ih]
      cases readBack rest <;> rfl
  | loop body tree bodyRead treeRead =>
      rw [flatten, List.cons_append, List.append_assoc, List.cons_append, readBack_loop, bodyRead,
        readBack_close, treeRead]
      cases readBack rest with
      | none => rfl
      | some read => simp [append]

@[simp]
theorem ofProgram?_flatten (tree : Tree) : ofProgram? tree.flatten = some tree := by
  have read := readBack_flatten_append tree []
  simp only [List.append_nil, readBack, Option.map_some, append_nil] at read
  rw [ofProgram?, read]

/-- No two trees are spelled alike. -/
theorem flatten_injective {first second : Tree} (same : first.flatten = second.flatten) :
    first = second := by
  have read := congrArg ofProgram? same
  simpa using read

/-! ## Jump tables of trees -/

/-- The jump table entries of a tree that is spelled from a position on. -/
def links : Tree → (position : Nat) → List (Option Nat)
  | nil, _ => []
  | act _ rest, position => none :: rest.links (position + 1)
  | loop body rest, position =>
      some (position + body.size + 1) :: (body.links (position + 1) ++
        some position :: rest.links (position + body.size + 2))

@[simp]
theorem length_links (tree : Tree) (position : Nat) : (tree.links position).length = tree.size := by
  induction tree generalizing position with
  | nil => rfl
  | act action rest ih => simp [links, ih]
  | loop body rest bodyLength restLength =>
      simp only [links, List.length_cons, List.length_append, bodyLength, restLength, size_loop]
      omega

end Tree

namespace JumpTable

theorem scan_act (action : Action) (rest : Bytes) (opened : List Nat)
    (entries : Array (Option Nat)) :
    scan (action.symbol :: rest) opened entries = scan rest opened (entries.push none) := by
  have notLoop := action.instruction_symbol_ne .loop (.inl rfl)
  have notClose := action.instruction_symbol_ne .close (.inr rfl)
  conv => lhs; unfold scan
  split <;> simp_all

theorem scan_loop (rest : Bytes) (opened : List Nat) (entries : Array (Option Nat)) :
    scan (Instruction.loop.symbol :: rest) opened entries =
      scan rest (entries.size :: opened) (entries.push none) := by
  simp only [scan, Instruction.ofByte?_symbol]

theorem scan_close_nil (rest : Bytes) (entries : Array (Option Nat)) :
    scan (Instruction.close.symbol :: rest) [] entries = .error ⟨entries.size⟩ := by
  simp only [scan, Instruction.ofByte?_symbol]

theorem scan_close_cons (rest : Bytes) (partner : Nat) (outer : List Nat)
    (entries : Array (Option Nat)) :
    scan (Instruction.close.symbol :: rest) (partner :: outer) entries =
      scan rest outer
        ((entries.setIfInBounds partner (some entries.size)).push (some partner)) := by
  simp only [scan, Instruction.ofByte?_symbol]

/-- Scanning a spelled tree appends its links to the table. -/
theorem scan_flatten_append (tree : Tree) (rest : Bytes) (opened : List Nat)
    (entries : Array (Option Nat)) :
    scan (tree.flatten ++ rest) opened entries =
      scan rest opened (entries ++ (tree.links entries.size).toArray) := by
  induction tree generalizing rest opened entries with
  | nil => simp [Tree.flatten, Tree.links]
  | act action tree ih =>
      rw [Tree.flatten, List.cons_append, scan_act, ih]
      congr 1
      simp [Tree.links]
  | loop body tree bodyScan treeScan =>
      rw [Tree.flatten, List.cons_append, List.append_assoc, List.cons_append, scan_loop, bodyScan,
        scan_close_cons, treeScan]
      congr 1
      apply Array.ext'
      simp [Tree.links, Nat.add_assoc]

/-- A scan inside loops that succeeds reads the tree of the innermost body and, for every open loop,
an end and the tree behind it. -/
theorem exists_trees_of_scan {program : Bytes} {opened : List Nat} {entries : Array (Option Nat)}
    {table : JumpTable} (scanned : scan program opened entries = .ok table) :
    ∃ (tree : Tree) (outer : List Tree), outer.length = opened.length ∧
      program = tree.flatten ++
        outer.flatMap fun next => Instruction.close.symbol :: next.flatten := by
  induction program generalizing opened entries with
  | nil =>
      cases opened with
      | nil => exact ⟨.nil, [], rfl, rfl⟩
      | cons innermost outer => simp [scan] at scanned
  | cons byte rest ih =>
      obtain ⟨action, rfl⟩ | rfl | rfl := Action.byte_cases byte
      · rw [scan_act] at scanned
        obtain ⟨tree, outer, depth, rfl⟩ := ih scanned
        exact ⟨.act action tree, outer, depth, rfl⟩
      · rw [scan_loop] at scanned
        obtain ⟨body, outer, depth, rfl⟩ := ih scanned
        cases outer with
        | nil => simp at depth
        | cons next outer =>
            refine ⟨.loop body next, outer, by simpa using depth, ?_⟩
            simp [Tree.flatten]
      · cases opened with
        | nil => simp [scan_close_nil] at scanned
        | cons partner opened =>
            rw [scan_close_cons] at scanned
            obtain ⟨tree, outer, depth, rfl⟩ := ih scanned
            refine ⟨.nil, tree :: outer, by simp [depth], ?_⟩
            simp [Tree.flatten]

/-- A program has a jump table exactly if it spells a tree, and then the table holds its links. -/
theorem ofProgram_eq_ok_iff {program : Bytes} {table : JumpTable} :
    ofProgram program = .ok table ↔
      ∃ tree : Tree, tree.flatten = program ∧ table = ⟨(tree.links 0).toArray⟩ := by
  have onTree (tree : Tree) : ofProgram tree.flatten = .ok ⟨(tree.links 0).toArray⟩ := by
    have scanned := scan_flatten_append tree [] [] #[]
    simpa [ofProgram, scan] using scanned
  constructor
  · intro accepted
    obtain ⟨tree, outer, depth, spelled⟩ := exists_trees_of_scan accepted
    obtain rfl := List.length_eq_zero_iff.mp depth
    simp only [List.flatMap_nil, List.append_nil] at spelled
    subst spelled
    rw [onTree] at accepted
    exact ⟨tree, rfl, (Except.ok.inj accepted).symm⟩
  · rintro ⟨tree, rfl, rfl⟩
    exact onTree tree

end JumpTable
end BitTape
