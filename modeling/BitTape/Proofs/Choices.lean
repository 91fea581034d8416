import BitTape.Command.Arguments

/-!
# Flags in any order

A `Choice` is a flag of the command by its letter, with its value.  Choices may stand in any order
before the two dashes that end the flags: every one of them stores its value, and those of different
flags do not interfere.
-/

namespace BitTape

/-- What a flag that is given by its letter asks for. -/
inductive Choice where
  /-- The program is in a file of this name. -/
  | program (name : Bytes)
  /-- The program is this text. -/
  | exec (bytes : Bytes)
  | format (chosen : OutputFormat)
  | newline (on : Bool)
  | asm
  | disasm
  deriving DecidableEq

namespace Choice

/-- The flag by which a choice is made. -/
def flag : Choice → Flag
  | program _ => .program
  | exec _ => .exec
  | format _ => .format
  | newline _ => .newline
  | asm => .asm
  | disasm => .disasm

/-- How a choice is written. -/
def arguments : Choice → List Bytes
  | program name => [text "-p", name]
  | exec bytes => [text "-e", bytes]
  | format chosen => [text "-f", chosen.name]
  | newline on => [text (if on then "-n=true" else "-n=false")]
  | asm => [text "-a"]
  | disasm => [text "-d"]

/-- The settings with a choice made. -/
def apply (settings : Settings) : Choice → Settings
  | program name => { settings with program := some name }
  | exec bytes => { settings with exec := some bytes }
  | format chosen => { settings with format := chosen }
  | newline on => { settings with newline := on }
  | asm => { settings with asm := true }
  | disasm => { settings with disasm := true }

theorem apply_comm {first second : Choice} (differ : first.flag ≠ second.flag)
    (settings : Settings) :
    second.apply (first.apply settings) = first.apply (second.apply settings) := by
  cases first <;> cases second <;> first | rfl | exact absurd rfl differ

/-- The order of the choices does not matter if no flag is given two values. -/
theorem foldl_apply_of_perm {choices others : List Choice} (ordered : choices.Perm others)
    (single : ∀ first ∈ others, ∀ second ∈ others, first.flag = second.flag → first = second)
    (settings : Settings) :
    choices.foldl (fun settings choice => choice.apply settings) settings =
      others.foldl (fun settings choice => choice.apply settings) settings := by
  refine ordered.foldl_eq' ?_ settings
  intro first member second memberToo settings
  by_cases same : first.flag = second.flag
  · rw [single first (ordered.mem_iff.mp member) second (ordered.mem_iff.mp memberToo) same]
  · exact apply_comm same settings

theorem foldl_apply_apply {choice : Choice} {others : List Choice}
    (differ : ∀ other ∈ others, other.flag ≠ choice.flag) (settings : Settings) :
    others.foldl (fun settings other => other.apply settings) (choice.apply settings) =
      choice.apply (others.foldl (fun settings other => other.apply settings) settings) := by
  induction others generalizing settings with
  | nil => rfl
  | cons other others ih =>
      have otherDiffers : choice.flag ≠ other.flag :=
        (differ other (List.mem_cons_self ..)).symm
      rw [List.foldl_cons, List.foldl_cons, apply_comm otherDiffers]
      apply ih
      intro another member
      exact differ another (List.mem_cons_of_mem other member)

theorem foldl_apply_append_cons (source : Choice) (before : List Choice)
    {after : List Choice} (differ : ∀ other ∈ after, other.flag ≠ source.flag)
    (settings : Settings) :
    (before ++ source :: after).foldl (fun settings choice => choice.apply settings) settings =
      source.apply
        ((before ++ after).foldl (fun settings choice => choice.apply settings) settings) := by
  rw [List.foldl_append, List.foldl_cons, foldl_apply_apply differ, List.foldl_append]

/-- The arguments of a choice store its value. -/
theorem foldlM_take_arguments (choice : Choice) (settings : Settings) (operands : Array Bytes) :
    choice.arguments.foldlM Parsed.take
        { settings, operands, awaited := none, ended := false } =
      Except.ok
        { settings := choice.apply settings, operands, awaited := none, ended := false } := by
  cases choice with
  | program name => rfl
  | exec bytes => rfl
  | format chosen => cases chosen <;> rfl
  | newline on => cases on <;> rfl
  | asm => rfl
  | disasm => rfl

theorem foldlM_take_flatMap (choices : List Choice) (settings : Settings)
    (operands : Array Bytes) :
    (choices.flatMap arguments).foldlM Parsed.take
        { settings, operands, awaited := none, ended := false } =
      Except.ok
        { settings := choices.foldl (fun settings choice => choice.apply settings) settings
          operands, awaited := none, ended := false } := by
  induction choices generalizing settings with
  | nil => rfl
  | cons choice choices ih =>
      rw [List.flatMap_cons, List.foldlM_append, foldlM_take_arguments]
      exact ih (choice.apply settings)

/-- Behind the end of the flags every argument is an operand. -/
theorem foldlM_take_operands (settings : Settings) (operands : Array Bytes) (others : List Bytes) :
    others.foldlM Parsed.take { settings, operands, awaited := none, ended := true } =
      Except.ok
        { settings, operands := operands ++ others.toArray, awaited := none, ended := true } := by
  induction others generalizing operands with
  | nil => simp [pure, Except.pure]
  | cons argument others ih =>
      have pushed := ih (operands.push argument)
      rw [List.push_append_toArray] at pushed
      exact pushed

theorem parseFlags_operands (choices : List Choice) (operands : List Bytes) :
    parseFlags (choices.flatMap arguments ++ text "--" :: operands) =
      .ok (choices.foldl (fun settings choice => choice.apply settings) .default, operands) := by
  have taken (settings : Settings) : (text "--" :: operands).foldlM Parsed.take
        { settings, operands := #[], awaited := none, ended := false } =
      Except.ok { settings, operands := operands.toArray, awaited := none, ended := true } := by
    have behind := foldlM_take_operands settings #[] operands
    rw [Array.empty_append] at behind
    exact behind
  rw [parseFlags, List.foldlM_append, Parsed.start, foldlM_take_flatMap]
  simp only [bind, Except.bind, taken]

theorem parseFlags_flatMap (choices : List Choice) (input : Bytes) :
    parseFlags (choices.flatMap arguments ++ [text "--", input]) =
      .ok (choices.foldl (fun settings choice => choice.apply settings) .default, [input]) :=
  parseFlags_operands choices [input]

end Choice
end BitTape
