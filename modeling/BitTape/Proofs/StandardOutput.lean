import BitTape.Proofs.CommandRun

/-!
# What reaches standard output

Apart from help and the version, the command writes to standard output only at its end: it has
failed before, or it prints chunks up to the first that is refused (`PrintsLast`).  So a command
that fails for another reason prints nothing, and one that succeeds has printed everything.
-/

namespace BitTape

/-! ## Streams that refuse some chunks -/

namespace Sink

theorem content_fill {sink : Sink} {chunk : Bytes} (taken : (sink.fill chunk).failure = none) :
    (sink.fill chunk).device.content = sink.content ++ chunk := by
  cases room : sink.room with
  | none => simp [fill, room, content]
  | some left =>
      by_cases short : left < chunk.length
      · simp [fill, room, short] at taken
      · simp [fill, room, short, content]

theorem content_write {sink : Sink} {chunk : Bytes}
    (taken : (Device.write sink chunk).failure = none) :
    (Device.write sink chunk).device.content = sink.content ++ chunk := by
  change (sink.write chunk).failure = none at taken
  change (sink.write chunk).device.content = sink.content ++ chunk
  cases calls : sink.calls with
  | none =>
      simp only [write, calls] at taken ⊢
      exact content_fill taken
  | some left =>
      cases left with
      | zero => simp [write, calls] at taken
      | succ left =>
          simp only [write, calls] at taken ⊢
          exact content_fill taken

theorem content_writeAll {sink : Sink} {chunks : List Bytes}
    (taken : (Guarded.writeAll { device := sink, failure := none } chunks).failure = none) :
    (Guarded.writeAll { device := sink, failure := none } chunks).device.content =
      sink.content ++ chunks.flatten := by
  induction chunks generalizing sink with
  | nil => simp
  | cons chunk chunks ih =>
      rw [Guarded.writeAll_cons, Guarded.write] at taken ⊢
      cases refused : (Device.write sink chunk).failure with
      | some reason =>
          simp only [refused, Option.map_some] at taken
          rw [Guarded.writeAll_of_failure rfl] at taken
          cases taken
      | none =>
          simp only [refused, Option.map_none] at taken ⊢
          rw [ih taken, content_write refused, List.flatten_cons, List.append_assoc]

/-- Chunks of which none is refused are kept as a whole. -/
theorem content_writeGuarded {sink : Sink} {chunks : List Bytes}
    (taken : (writeGuarded sink chunks).2 = none) :
    (writeGuarded sink chunks).1.content = sink.content ++ chunks.flatten :=
  content_writeAll taken

end Sink

/-! ## Printing last -/

/-- A part of the command that does nothing with standard output but print chunks at its end. -/
inductive PrintsLast : (Sink → Option (Console × Option Failure)) → Prop where
  /-- It does not end in the number of instructions that it may execute. -/
  | endless : PrintsLast fun _ => none
  /-- It fails before it prints anything. -/
  | fails (err : Sink) (failure : Failure) : PrintsLast fun out => some ({ out, err }, some failure)
  | prints (err : Sink) (chunks : List Bytes) :
      PrintsLast fun out => some (Console.print { out, err } chunks)

theorem Console.exists_log (err : Sink) (settings : Settings) (line : Bytes) :
    ∃ next : Sink, ∀ out : Sink,
      Console.log { out, err } settings line = { out, err := next } := by
  cases verbose : settings.verbose with
  | false => exact ⟨err, fun out => by simp [log, verbose]⟩
  | true => exact ⟨writeRegardless err [line], fun out => by simp [log, verbose, note]⟩

theorem finish_printsLast (settings : Settings) (err : Sink) (machine : Machine) :
    PrintsLast fun out => some (finish settings { out, err } machine) := by
  cases dump : settings.dump with
  | false =>
      simp only [finish, dump]
      exact .prints err _
  | true =>
      simp only [finish, dump, Console.printError]
      cases (writeGuarded err machine.report).2 with
      | none => exact .prints _ _
      | some refusal => exact .fails _ (.write refusal)

theorem runProgram_printsLast (steps : Nat) (host : Host) (request : Request) (err : Sink)
    (program : Bytes) :
    PrintsLast fun out => runProgram steps host request { out, err } program := by
  unfold runProgram
  cases inputBytes host request with
  | error failure => exact .fails err failure
  | ok input =>
      dsimp only
      cases Machine.load program [.input input] with
      | error error => exact .fails err (.load error)
      | ok machine =>
          dsimp only
          cases machine.run steps with
          | none => exact .endless
          | some answer =>
              cases answer with
              | error crash => exact .fails err (.crash crash)
              | ok final =>
                  obtain ⟨next, logged⟩ :=
                    Console.exists_log err request.settings (completeLine host input final)
                  simp only [logged]
                  exact finish_printsLast request.settings next final

theorem execute_printsLast (steps : Nat) (host : Host) (request : Request) (err : Sink) :
    PrintsLast fun out => execute steps host request { out, err } := by
  unfold execute
  cases programText host request.settings with
  | error failure => exact .fails err failure
  | ok program =>
      obtain ⟨next, logged⟩ :=
        Console.exists_log err request.settings (loadedLine host request.settings program)
      simp only [logged]
      cases compile request.settings program with
      | error failure => exact .fails next failure
      | ok code =>
          cases disasm : request.settings.disasm with
          | true => exact .prints next (listing code)
          | false => exact runProgram_printsLast steps host request next code

/-- What settings and operands lead to if neither help nor the version is asked for. -/
def respond (steps : Nat) (host : Host) (settings : Settings) (operands : List Bytes)
    (console : Console) : Option Result :=
  match Request.check settings operands with
  | .error error => some (conclude settings.verbose (console, some (.usage error)))
  | .ok request => (execute steps host request console).map (conclude settings.verbose)

theorem command_eq_respond {arguments : List Bytes} {settings : Settings} {operands : List Bytes}
    (parsed : parseFlags arguments = .ok (settings, operands)) (unhelped : settings.help = false)
    (unversioned : settings.version = false) (steps : Nat) (host : Host) (console : Console) :
    command steps host arguments console = respond steps host settings operands console := by
  cases checked : Request.check settings operands with
  | error error => simp [command, respond, parsed, unhelped, checked]
  | ok request => simp [command, respond, parsed, unhelped, unversioned, checked]

theorem respond_printsLast (steps : Nat) (host : Host) (settings : Settings)
    (operands : List Bytes) (err : Sink) :
    ∃ part, PrintsLast part ∧ ∀ out, respond steps host settings operands { out, err } =
      (part out).map (conclude settings.verbose) := by
  unfold respond
  cases Request.check settings operands with
  | error error => exact ⟨_, .fails err (.usage error), fun _ => rfl⟩
  | ok request => exact ⟨_, execute_printsLast steps host request err, fun _ => rfl⟩

theorem conclude_print (verbose : Bool) (out err : Sink) (chunks : List Bytes) :
    (conclude verbose (Console.print { out, err } chunks)).console.out =
        (writeGuarded out chunks).1 ∧
      ((conclude verbose (Console.print { out, err } chunks)).status = 0 ↔
        (writeGuarded out chunks).2 = none) := by
  rw [Console.print]
  cases writeGuarded out chunks with
  | mk taken refusal => cases refusal <;> simp [conclude, Console.note]

namespace PrintsLast

variable {part : Sink → Option (Console × Option Failure)} (last : PrintsLast part)

include last

/-- On a stream that refuses nothing, a part that fails has printed nothing. -/
theorem content_of_failure {verbose : Bool} {result : Result}
    (ended : (part .unlimited).map (conclude verbose) = some result)
    (failed : result.status = 1) : result.console.out.content = [] := by
  cases last with
  | endless => cases ended
  | fails err failure =>
      obtain rfl := Option.some.inj ended
      rfl
  | prints err chunks =>
      obtain rfl := Option.some.inj ended
      have succeeded := (conclude_print verbose .unlimited err chunks).2.mpr
        (by rw [Sink.writeGuarded_unlimited])
      rw [succeeded] at failed
      cases failed

theorem content_of_success {verbose : Bool} {calls room : Option Nat} {result : Result}
    (ended : (part (.limited calls room)).map (conclude verbose) = some result)
    (succeeded : result.status = 0) :
    ∃ whole, (part .unlimited).map (conclude verbose) = some whole ∧ whole.status = 0 ∧
      result.console.out.content = whole.console.out.content := by
  cases last with
  | endless => cases ended
  | fails err failure =>
      obtain rfl := Option.some.inj ended
      cases succeeded
  | prints err chunks =>
      obtain rfl := Option.some.inj ended
      have printed := conclude_print verbose (.limited calls room) err chunks
      have wholePrinted := conclude_print verbose .unlimited err chunks
      rw [Sink.writeGuarded_unlimited] at wholePrinted
      refine ⟨_, rfl, wholePrinted.2.mpr rfl, ?_⟩
      rw [printed.1, Sink.content_writeGuarded (printed.2.mp succeeded), wholePrinted.1]
      rfl

/-- What a part prints is printed in chunks, and the first that is refused makes it fail. -/
theorem exists_chunks {verbose : Bool} {whole : Result}
    (ended : (part .unlimited).map (conclude verbose) = some whole) :
    ∃ chunks : List Bytes, whole.console.out.content = chunks.flatten ∧
      ∀ calls room, ∃ result,
        (part (.limited calls room)).map (conclude verbose) = some result ∧
          result.console.out = (writeGuarded (Sink.limited calls room) chunks).1 ∧
          (result.status = 0 ↔
            whole.status = 0 ∧ (writeGuarded (Sink.limited calls room) chunks).2 = none) := by
  cases last with
  | endless => cases ended
  | fails err failure =>
      obtain rfl := Option.some.inj ended
      exact ⟨[], rfl, fun calls room => ⟨_, rfl, rfl, by simp [conclude]⟩⟩
  | prints err chunks =>
      obtain rfl := Option.some.inj ended
      have wholePrinted := conclude_print verbose .unlimited err chunks
      rw [Sink.writeGuarded_unlimited] at wholePrinted
      refine ⟨chunks, by rw [wholePrinted.1]; rfl, ?_⟩
      intro calls room
      have printed := conclude_print verbose (.limited calls room) err chunks
      refine ⟨_, rfl, printed.1, ?_⟩
      rw [printed.2]
      exact ⟨fun taken => ⟨wholePrinted.2.mpr rfl, taken⟩, And.right⟩

end PrintsLast

/-! ## Failure and success -/

/-- A command that fails has printed nothing, if standard output refuses nothing, whatever the
arguments, the files, standard input and the limits of standard error. -/
theorem failing_command_prints_nothing {steps : Nat} {host : Host} {arguments : List Bytes}
    {err : Sink} {result : Result}
    (ended : command steps host arguments { out := .unlimited, err } = some result)
    (failed : result.status = 1) : result.console.out.content = [] := by
  cases parsed : parseFlags arguments with
  | error error =>
      simp only [command, parsed] at ended
      exact (PrintsLast.fails err (.usage error)).content_of_failure ended failed
  | ok found =>
      obtain ⟨settings, operands⟩ := found
      cases help : settings.help with
      | true =>
          simp only [command, parsed, help, if_true, Option.some.injEq] at ended
          subst ended
          cases failed
      | false =>
          cases version : settings.version with
          | false =>
              obtain ⟨part, last, respond_eq⟩ :=
                respond_printsLast steps host settings operands err
              rw [command_eq_respond parsed help version, respond_eq] at ended
              exact last.content_of_failure ended failed
          | true =>
              cases checked : Request.check settings operands with
              | error error =>
                  simp only [command, parsed, help, checked] at ended
                  exact (PrintsLast.fails err (.usage error)).content_of_failure ended failed
              | ok request =>
                  simp only [command, parsed, help, checked, version] at ended
                  obtain rfl := Option.some.inj ended
                  cases failed

/-- The output is not printed if the state cannot be reported before it. -/
theorem failing_report_prints_nothing :
    ∃ result,
      command 9 copyHost [text "--dump", text "-e", text "+;", text "--", []]
          { out := .unlimited, err := .limited (some 0) none } = some result ∧
        result.status = 1 ∧ result.console.out.content = [] := by
  obtain ⟨result, ended, failed⟩ : ∃ result,
      command 9 copyHost [text "--dump", text "-e", text "+;", text "--", []]
          { out := .unlimited, err := .limited (some 0) none } = some result ∧
        result.status = 1 :=
    ⟨_, rfl, rfl⟩
  exact ⟨result, ended, failed, failing_command_prints_nothing ended failed⟩

/-- A command that succeeds has printed what it prints without limits, unless it was asked for help
or for the version; it succeeds exactly if no chunk is refused. -/
theorem success_loses_no_output {arguments : List Bytes} {settings : Settings}
    {operands : List Bytes} (parsed : parseFlags arguments = .ok (settings, operands))
    (unhelped : settings.help = false) (unversioned : settings.version = false) (steps : Nat)
    (host : Host) (err : Sink) :
    (∀ calls room result,
      command steps host arguments { out := .limited calls room, err } = some result →
      result.status = 0 →
        ∃ whole, command steps host arguments { out := .unlimited, err } = some whole ∧
          whole.status = 0 ∧ result.console.out.content = whole.console.out.content) ∧
    ∀ whole, command steps host arguments { out := .unlimited, err } = some whole →
      ∃ chunks : List Bytes, whole.console.out.content = chunks.flatten ∧
        ∀ calls room, ∃ result,
          command steps host arguments { out := .limited calls room, err } = some result ∧
            result.console.out = (writeGuarded (Sink.limited calls room) chunks).1 ∧
            (result.status = 0 ↔
              whole.status = 0 ∧ (writeGuarded (Sink.limited calls room) chunks).2 = none) := by
  obtain ⟨part, last, respond_eq⟩ := respond_printsLast steps host settings operands err
  simp only [command_eq_respond parsed unhelped unversioned, respond_eq]
  refine ⟨?_, ?_⟩
  · intro calls room result ended succeeded
    exact last.content_of_success ended succeeded
  · intro whole ended
    exact last.exists_chunks ended

/-- Two bits and a line feed just fit into three bytes. -/
theorem success_keeps_two_bits :
    ∃ settings operands,
      parseFlags (invocation [.format .bits, .exec (text "+;;")] []) = .ok (settings, operands) ∧
        settings.help = false ∧ settings.version = false ∧
        ∃ result whole,
          command 9 copyHost (invocation [.format .bits, .exec (text "+;;")] [])
              { out := .limited none (some 3), err := .unlimited } = some result ∧
            result.status = 0 ∧
            command 9 copyHost (invocation [.format .bits, .exec (text "+;;")] [])
              { out := .unlimited, err := .unlimited } = some whole ∧
            result.console.out.content = whole.console.out.content := by
  obtain ⟨settings, operands, parsed, unhelped, unversioned⟩ : ∃ settings operands,
      parseFlags (invocation [.format .bits, .exec (text "+;;")] []) = .ok (settings, operands) ∧
        settings.help = false ∧ settings.version = false :=
    ⟨_, _, rfl, rfl, rfl⟩
  obtain ⟨result, ended, succeeded⟩ : ∃ result,
      command 9 copyHost (invocation [.format .bits, .exec (text "+;;")] [])
          { out := .limited none (some 3), err := .unlimited } = some result ∧
        result.status = 0 :=
    ⟨_, rfl, rfl⟩
  obtain ⟨whole, wholeEnded, -, same⟩ :=
    (success_loses_no_output parsed unhelped unversioned 9 copyHost .unlimited).1 _ _ _ ended
      succeeded
  exact ⟨settings, operands, parsed, unhelped, unversioned, result, whole, ended, succeeded,
    wholeEnded, same⟩

/-- The version is cut short by a stream with room for three bytes, and the command succeeds. -/
theorem version_succeeds_when_cut_short :
    ∃ result whole,
      command 0 copyHost [text "--version"]
          { out := .limited none (some 3), err := .unlimited } = some result ∧
        command 0 copyHost [text "--version"] { out := .unlimited, err := .unlimited } =
          some whole ∧
        result.status = 0 ∧ result.console.out.content = text "bit" ∧
        whole.console.out.content = text "bitvm (devel)\n" :=
  ⟨_, _, rfl, rfl, rfl, by decide, by decide⟩

end BitTape
