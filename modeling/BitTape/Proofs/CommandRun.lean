import BitTape.Command
import BitTape.Proofs.Choices
import BitTape.Proofs.Devices
import BitTape.Proofs.StrippedRun

/-!
# The command and the machine

A command with a program file and an input does what the assembler, the jump table and the machine
do one after the other.  Every stage has its own lemma; `command_runs_file` puts them together for
flags in any order and streams that refuse nothing.
-/

namespace BitTape

/-! ## Streams that refuse nothing -/

namespace Console

/-- A console without limits that shows some bytes on each stream. -/
def showing (out err : Bytes) : Console :=
  { out := .holding out, err := .holding err }

theorem showing_nil : showing [] [] = { out := .unlimited, err := .unlimited } := rfl

theorem print_showing (out err : Bytes) (chunks : List Bytes) :
    (showing out err).print chunks = (showing (out ++ chunks.flatten) err, none) := by
  simp only [print, showing, writeGuarded, Writer.guard, Sink.writeAll_holding, Option.map_none]

theorem note_showing (out err line : Bytes) :
    (showing out err).note line = showing out (err ++ line) := by
  simp only [note, showing, writeRegardless, List.foldl_cons, List.foldl_nil, Sink.write_holding]

end Console

theorem conclude_failure (out err : Bytes) (failure : Failure) (verbose : Bool) :
    conclude verbose (.showing out err, some failure) =
      { status := 1
        console :=
          .showing out (err ++ (text "bitvm: " ++ failure.message verbose ++ text "\n")) } := by
  rw [conclude, Console.note_showing]

/-! ## Formats -/

/-- Output bits in a format. -/
def OutputFormat.rendered : OutputFormat → List Bool → Bytes
  | raw, output => unpack output
  | hex, output => hexadecimal (unpack output)
  | bits, output => output.map bitDigit

theorem flatten_bitChunks (bits : List Bool) : (bitChunks bits).flatten = bits.map bitDigit := by
  induction bits with
  | nil => rfl
  | cons bit bits ih => simpa [bitChunks] using ih

theorem OutputFormat.flatten_chunks (format : OutputFormat) (newline : Bool) (machine : Machine) :
    (format.chunks newline machine).flatten =
      format.rendered machine.output.toList ++ if newline then text "\n" else [] := by
  have ending : (if newline then [text "\n"] else []).flatten =
      if newline then text "\n" else [] := by
    cases newline <;> rfl
  rw [chunks.eq_def, List.flatten_append, ending]
  cases format with
  | raw => simp [rendered, Machine.outputBytes]
  | hex => simp [rendered, Machine.outputBytes]
  | bits => simp [rendered, flatten_bitChunks]

/-! ## Stages -/

/-- The program of a file: its content, or what the assembler makes of it. -/
def fileProgram (asm : Bool) (content : Bytes) : Except (List Diagnostic) Bytes :=
  if asm then assemble { bytes := content, failure := none } else .ok content

theorem compile_eq (settings : Settings) (program : ProgramText) :
    compile settings program =
      (fileProgram settings.asm program.bytes).mapError (.assembly program.name) := by
  cases asm : settings.asm with
  | false =>
      simp only [compile, fileProgram, asm]
      rfl
  | true =>
      simp only [compile, fileProgram, asm, if_true]
      cases assemble { bytes := program.bytes, failure := none } <;> rfl

theorem mapError_of_made {asm : Bool} {content program : Bytes}
    (made : fileProgram asm content = .ok program) (name : Bytes) :
    (fileProgram asm content).mapError (Failure.assembly name) = .ok program := by
  rw [made]
  rfl

theorem programText_of_file {host : Host} {settings : Settings} {name content : Bytes}
    (named : name ≠ []) (stored : host.files name = .ok content)
    (unwritten : settings.exec = none) (chosen : settings.program = some name) :
    programText host settings = .ok { name, bytes := content } := by
  obtain ⟨first, rest, rfl⟩ := List.exists_cons_of_ne_nil named
  simp [programText, unwritten, chosen, stored]

section Run

variable {host : Host} {settings : Settings} {program input : Bytes}

theorem runProgram_of_mismatch (unread : settings.input = []) {bracket : Mismatch}
    (failed : JumpTable.ofProgram program = .error bracket) (steps : Nat) (console : Console) :
    runProgram steps host { settings, operand := some input } console program =
      some (console, some (.load (.mismatch bracket))) := by
  simp [runProgram, inputBytes, unread, Machine.load, failed]

theorem runProgram_of_run (unread : settings.input = []) (silent : settings.verbose = false)
    (undumped : settings.dump = false) {machine final : Machine}
    (loaded : Machine.load program [.input input] = .ok machine) {steps : Nat}
    (ended : machine.run steps = some (.ok final)) (console : Console) :
    runProgram steps host { settings, operand := some input } console program =
      some (console.print (settings.format.chunks settings.newline final)) := by
  simp [runProgram, inputBytes, unread, loaded, ended, Console.log, silent, finish, undumped]

end Run

/-! ## From the arguments to the exit status -/

/-- The choices of a program file, a format, a line feed after the output and perhaps assembly. -/
def fileChoices (name : Bytes) (format : OutputFormat) (newline asm : Bool) : List Choice :=
  [.program name, .format format, .newline newline] ++ if asm then [.asm] else []

/-- What these choices ask for. -/
def fileSettings (name : Bytes) (format : OutputFormat) (newline asm : Bool) : Settings :=
  { Settings.default with program := some name, format, newline, asm }

/-- Choices before two dashes and an input behind them. -/
def invocation (choices : List Choice) (input : Bytes) : List Bytes :=
  choices.flatMap Choice.arguments ++ [text "--", input]

theorem foldl_apply_fileChoices {name : Bytes} {format : OutputFormat} {newline asm : Bool}
    {choices : List Choice} (ordered : choices.Perm (fileChoices name format newline asm)) :
    choices.foldl (fun settings choice => choice.apply settings) .default =
      fileSettings name format newline asm := by
  rw [Choice.foldl_apply_of_perm ordered]
  · cases asm <;> rfl
  · cases asm <;> simp [fileChoices, Choice.flag]

/-- A command on streams without limits ends with an exit status and with these bytes on standard
output and standard error. -/
def CommandEnds (steps : Nat) (host : Host) (arguments : List Bytes) (status : Nat)
    (out err : Bytes) : Prop :=
  (command steps host arguments { out := .unlimited, err := .unlimited }).map
      (fun result => (result.status, result.console.out.content, result.console.err.content)) =
    some (status, out, err)

theorem commandEnds_of_showing {steps : Nat} {host : Host} {arguments : List Bytes} {status : Nat}
    {out err : Bytes}
    (ended : command steps host arguments (.showing [] []) =
      some { status, console := .showing out err }) :
    CommandEnds steps host arguments status out err := by
  rw [CommandEnds, ← Console.showing_nil, ended]
  simp [Console.showing]

section File

variable {host : Host} {name content : Bytes} {format : OutputFormat} {newline asm : Bool}
  {choices : List Choice} (named : name ≠ []) (stored : host.files name = .ok content)
  (ordered : choices.Perm (fileChoices name format newline asm))

include named stored ordered

/-- The command goes on with the content of the file. -/
theorem command_file (input : Bytes) (steps : Nat) (console : Console) :
    command steps host (invocation choices input) console =
      (match (fileProgram asm content).mapError (Failure.assembly name) with
        | .error failure => some (console, some failure)
        | .ok program =>
            runProgram steps host
              { settings := fileSettings name format newline asm, operand := some input }
              console program).map (conclude false) := by
  have parsed := Choice.parseFlags_flatMap choices input
  rw [foldl_apply_fileChoices ordered] at parsed
  have found : programText host (fileSettings name format newline asm) =
      .ok { name, bytes := content } :=
    programText_of_file named stored rfl rfl
  have compiled := compile_eq (fileSettings name format newline asm) { name, bytes := content }
  have checked : Request.check (fileSettings name format newline asm) [input] =
      .ok { settings := fileSettings name format newline asm, operand := some input } := rfl
  rw [command, invocation, parsed]
  simp only [checked, execute, found, compiled]
  rfl

theorem commandEnds_of_diagnostics {diagnostics : List Diagnostic}
    (refused : fileProgram asm content = .error diagnostics) (input : Bytes) (steps : Nat) :
    CommandEnds steps host (invocation choices input) 1 []
      (text "bitvm: " ++ report name diagnostics ++ text "\n") := by
  refine commandEnds_of_showing ?_
  rw [command_file named stored ordered, refused]
  exact congrArg some (conclude_failure [] [] (.assembly name diagnostics) false)

theorem commandEnds_of_mismatch {program : Bytes} (made : fileProgram asm content = .ok program)
    {bracket : Mismatch} (failed : JumpTable.ofProgram program = .error bracket) (input : Bytes)
    (steps : Nat) :
    CommandEnds steps host (invocation choices input) 1 []
      (text "bitvm: jump table: mismatched bracket at position " ++ decimal bracket.position ++
        text "\n") := by
  have unread : (fileSettings name format newline asm).input = [] := rfl
  refine commandEnds_of_showing ?_
  rw [command_file named stored ordered, mapError_of_made made]
  simp only [runProgram_of_mismatch unread failed]
  exact congrArg some (conclude_failure [] [] (.load (.mismatch bracket)) false)

theorem commandEnds_of_run {program input : Bytes} (made : fileProgram asm content = .ok program)
    {machine final : Machine} (loaded : Machine.load program [.input input] = .ok machine)
    {steps : Nat} (ended : machine.run steps = some (.ok final)) :
    CommandEnds steps host (invocation choices input) 0
      (format.rendered final.output.toList ++ if newline then text "\n" else []) [] := by
  have unread : (fileSettings name format newline asm).input = [] := rfl
  have silent : (fileSettings name format newline asm).verbose = false := rfl
  have undumped : (fileSettings name format newline asm).dump = false := rfl
  refine commandEnds_of_showing ?_
  rw [command_file named stored ordered, mapError_of_made made]
  simp only [runProgram_of_run unread silent undumped loaded ended, Console.print_showing,
    OutputFormat.flatten_chunks]
  rfl

end File

/-- A host on which every file is a source that copies bits up to the first zero. -/
def copyHost : Host :=
  { version := [], files := fun _ => .ok (text "in while out in repeat"), stdin := .terminal
    now := [], elapsed := [] }

end BitTape
