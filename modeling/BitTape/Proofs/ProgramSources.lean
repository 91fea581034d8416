import BitTape.Proofs.StandardOutput
import Mathlib.Data.Option.Basic

/-!
# Programs given as text and as files

A program can be given as a text or as a file that holds the text.  The two differ only in the name
that the assembler gives to the source, with one exception: an empty text is taken for no program at
all, while an empty file is the empty program.
-/

namespace BitTape

/-! ## Choices beside the program -/

/-- Settings that name no program, and ask for neither help, the version nor log lines. -/
structure Settings.Unsourced (settings : Settings) : Prop where
  program_eq : settings.program = none
  exec_eq : settings.exec = none
  verbose_eq : settings.verbose = false
  version_eq : settings.version = false
  help_eq : settings.help = false

namespace Settings.Unsourced

theorem apply {settings : Settings} (unsourced : settings.Unsourced) {choice : Choice}
    (neutral : choice.flag ≠ .exec ∧ choice.flag ≠ .program) :
    (choice.apply settings).Unsourced := by
  obtain ⟨program_eq, exec_eq, verbose_eq, version_eq, help_eq⟩ := unsourced
  cases choice with
  | exec bytes => exact absurd rfl neutral.1
  | program name => exact absurd rfl neutral.2
  | _ => exact ⟨program_eq, exec_eq, verbose_eq, version_eq, help_eq⟩

theorem foldl_apply {settings : Settings} (unsourced : settings.Unsourced) {choices : List Choice}
    (neutral : ∀ choice ∈ choices, choice.flag ≠ .exec ∧ choice.flag ≠ .program) :
    (choices.foldl (fun settings choice => choice.apply settings) settings).Unsourced := by
  induction choices generalizing settings with
  | nil => exact unsourced
  | cons choice choices ih =>
      apply ih (unsourced.apply (neutral choice (List.mem_cons_self ..)))
      intro other member
      exact neutral other (List.mem_cons_of_mem choice member)

end Settings.Unsourced

/-! ## From the source to the result -/

/-- Choices, two dashes and operands. -/
def commandLine (choices : List Choice) (operands : List Bytes) : List Bytes :=
  choices.flatMap Choice.arguments ++ text "--" :: operands

theorem command_commandLine {choices : List Choice} {settings : Settings}
    (made : choices.foldl (fun settings choice => choice.apply settings) .default = settings)
    (unhelped : settings.help = false) (unversioned : settings.version = false) (steps : Nat)
    (host : Host) (operands : List Bytes) (console : Console) :
    command steps host (commandLine choices operands) console =
      respond steps host settings operands console := by
  have parsed := Choice.parseFlags_operands choices operands
  rw [made] at parsed
  exact command_eq_respond parsed unhelped unversioned steps host console

/-- The name of a source is used for nothing but the reports of the assembler. -/
theorem execute_of_text {host : Host} {settings : Settings} {program : ProgramText}
    (found : programText host settings = .ok program) (silent : settings.verbose = false)
    (operand : Option Bytes) (steps : Nat) (console : Console) :
    execute steps host { settings, operand } console =
      match fileProgram settings.asm program.bytes with
      | .error diagnostics => some (console, some (.assembly program.name diagnostics))
      | .ok code =>
          if settings.disasm then some (console.print (listing code))
          else runProgram steps host { settings, operand } console code := by
  simp only [execute, found, Console.log, silent, compile_eq]
  cases fileProgram settings.asm program.bytes <;> rfl

/-- Two results of a command on a console that differ at most in the name under which the assembler
reports errors of a source. -/
structure SameButName (console : Console) (source firstName secondName : Bytes)
    (first second : Result) : Prop where
  status_eq : first.status = second.status
  out_eq : first.console.out = second.console.out
  err_eq : first.console.err = second.console.err ∨
    ∃ diagnostics, assemble { bytes := source, failure := none } = .error diagnostics ∧
      first.console =
        console.note (text "bitvm: " ++ report firstName diagnostics ++ text "\n") ∧
      second.console =
        console.note (text "bitvm: " ++ report secondName diagnostics ++ text "\n")

theorem sameButName_self (console : Console) (source firstName secondName : Bytes)
    (result : Option Result) :
    Option.Rel (SameButName console source firstName secondName) result result := by
  cases result with
  | none => exact .none
  | some result => exact .some ⟨rfl, rfl, .inl rfl⟩

theorem Request.check_of_many {operands : List Bytes} (many : 1 < operands.length)
    (settings : Settings) :
    Request.check settings operands = .error (.manyOperands operands.length) := by
  rw [check, if_pos many]

theorem Request.check_of_source {operands : List Bytes} (few : operands.length ≤ 1)
    {settings : Settings} (single : ¬(settings.program.isSome ∧ settings.exec.isSome)) :
    Request.check settings operands = .ok { settings, operand := operands.head? } := by
  rw [check, if_neg (Nat.not_lt.mpr few), if_neg single]

section Sources

variable {settings : Settings} (unsourced : settings.Unsourced)

include unsourced

/-- A text that is not empty does what a file that holds it does. -/
theorem respond_exec_program {host : Host} {name bytes : Bytes} (named : name ≠ [])
    (stored : host.files name = .ok bytes) (written : bytes ≠ []) (steps : Nat)
    (operands : List Bytes) (console : Console) :
    Option.Rel (SameButName console bytes (text "exec") name)
      (respond steps host ((Choice.exec bytes).apply settings) operands console)
      (respond steps host ((Choice.program name).apply settings) operands console) := by
  obtain ⟨program_eq, exec_eq, verbose_eq, -, -⟩ := unsourced
  have fromText : programText host ((Choice.exec bytes).apply settings) =
      .ok { name := text "exec", bytes } := by
    obtain ⟨first, rest, rfl⟩ := List.exists_cons_of_ne_nil written
    simp [programText, Choice.apply, program_eq]
  have fromFile : programText host ((Choice.program name).apply settings) =
      .ok { name, bytes } :=
    programText_of_file named stored exec_eq rfl
  rcases Nat.lt_or_ge 1 operands.length with many | few
  · rw [respond, respond, Request.check_of_many many, Request.check_of_many many]
    exact sameButName_self ..
  · rw [respond, respond, Request.check_of_source few (by simp [Choice.apply, program_eq]),
      Request.check_of_source few (by simp [Choice.apply, exec_eq])]
    simp only [execute_of_text fromText verbose_eq, execute_of_text fromFile verbose_eq]
    simp only [Choice.apply]
    cases made : fileProgram settings.asm bytes with
    | error diagnostics =>
        have assembled : assemble { bytes, failure := none } = .error diagnostics := by
          cases asm : settings.asm with
          | false => simp [fileProgram, asm] at made
          | true => simpa [fileProgram, asm] using made
        rw [verbose_eq]
        exact .some ⟨rfl, rfl, .inr ⟨diagnostics, assembled, rfl, rfl⟩⟩
    | ok code =>
        exact sameButName_self ..

/-- An empty text does what no program at all does. -/
theorem respond_exec_nil (host : Host) (steps : Nat) (operands : List Bytes) (console : Console) :
    respond steps host ((Choice.exec []).apply settings) operands console =
      respond steps host settings operands console := by
  obtain ⟨program_eq, exec_eq, verbose_eq, -, -⟩ := unsourced
  have same : programText host ((Choice.exec []).apply settings) = programText host settings := by
    simp [programText, Choice.apply, program_eq, exec_eq]
  rcases Nat.lt_or_ge 1 operands.length with many | few
  · rw [respond, respond, Request.check_of_many many, Request.check_of_many many]
    rfl
  · rw [respond, respond, Request.check_of_source few (by simp [Choice.apply, program_eq]),
      Request.check_of_source few (by simp [exec_eq])]
    simp only [execute, same]
    rfl

end Sources

/-! ## Command lines -/

/-- A program given as a text does what it does when a file holds it, but for the name under which
the assembler reports errors; an empty text is taken for none. -/
theorem text_agrees_with_file {host : Host} {name bytes : Bytes} (named : name ≠ [])
    (stored : host.files name = .ok bytes) {before after : List Choice}
    (neutral : ∀ choice ∈ before ++ after, choice.flag ≠ .exec ∧ choice.flag ≠ .program)
    (operands : List Bytes) (steps : Nat) (console : Console) :
    (bytes ≠ [] →
      Option.Rel (SameButName console bytes (text "exec") name)
        (command steps host (commandLine (before ++ .exec bytes :: after) operands) console)
        (command steps host (commandLine (before ++ .program name :: after) operands) console)) ∧
    (bytes = [] →
      command steps host (commandLine (before ++ .exec bytes :: after) operands) console =
        command steps host (commandLine (before ++ after) operands) console) := by
  have plain : Settings.default.Unsourced := ⟨rfl, rfl, rfl, rfl, rfl⟩
  have unsourced := plain.foldl_apply neutral
  have viaText := Choice.foldl_apply_append_cons (.exec bytes) before
    (fun other member => (neutral other (List.mem_append_right before member)).1) .default
  have viaFile := Choice.foldl_apply_append_cons (.program name) before
    (fun other member => (neutral other (List.mem_append_right before member)).2) .default
  refine ⟨?_, ?_⟩
  · intro written
    rw [command_commandLine viaText unsourced.help_eq unsourced.version_eq,
      command_commandLine viaFile unsourced.help_eq unsourced.version_eq]
    exact respond_exec_program unsourced named stored written steps operands console
  · rintro rfl
    rw [command_commandLine viaText unsourced.help_eq unsourced.version_eq,
      command_commandLine rfl unsourced.help_eq unsourced.version_eq]
    exact respond_exec_nil unsourced host steps operands console

/-- A source that is assembled and run alike, between flags on either side. -/
theorem copy_text_agrees_with_file :
    text "copy" ≠ [] ∧ copyHost.files (text "copy") = .ok (text "in while out in repeat") ∧
      text "in while out in repeat" ≠ [] ∧
      (∀ choice ∈ [Choice.asm] ++ [.format .bits],
        choice.flag ≠ .exec ∧ choice.flag ≠ .program) ∧
      Option.Rel
        (SameButName (.showing [] []) (text "in while out in repeat") (text "exec") (text "copy"))
        (command 9 copyHost
          (commandLine [.asm, .exec (text "in while out in repeat"), .format .bits] [[11]])
          (.showing [] []))
        (command 9 copyHost
          (commandLine [.asm, .program (text "copy"), .format .bits] [[11]])
          (.showing [] [])) := by
  have named : text "copy" ≠ [] := by decide
  have stored : copyHost.files (text "copy") = .ok (text "in while out in repeat") := rfl
  have written : text "in while out in repeat" ≠ [] := by decide
  have neutral : ∀ choice ∈ [Choice.asm] ++ [.format .bits],
      choice.flag ≠ .exec ∧ choice.flag ≠ .program := by decide
  exact ⟨named, stored, written, neutral,
    (text_agrees_with_file named stored neutral [[11]] 9 (.showing [] [])).1 written⟩

/-- A host on which every file is empty. -/
def blankHost : Host :=
  { version := [], files := fun _ => .ok [], stdin := .terminal, now := [], elapsed := [] }

/-- An empty file has an empty listing, and an empty text that of the block copy program. -/
theorem empty_text_differs_from_empty_file :
    CommandEnds 0 blankHost (commandLine [.disasm, .program (text "blank")] []) 0 [] [] ∧
      CommandEnds 0 blankHost (commandLine [.disasm, .exec []] []) 0
        (listing Echo.program).flatten [] ∧
      (listing Echo.program).flatten ≠ [] := by
  refine ⟨rfl, ?_, ?_⟩
  · have printed (chunks : List Bytes) :
        conclude false ((Console.showing [] []).print chunks) =
          { status := 0, console := .showing chunks.flatten [] } := by
      rw [Console.print_showing]
      rfl
    have listed : command 0 blankHost (commandLine [.disasm, .exec []] []) (.showing [] []) =
        some (conclude false ((Console.showing [] []).print (listing Echo.program))) := rfl
    rw [printed] at listed
    exact commandEnds_of_showing listed
  · decide +kernel

end BitTape
