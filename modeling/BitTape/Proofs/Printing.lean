import BitTape.Machine.Report
import BitTape.Proofs.Listings

/-!
# Printing on streams that fail

Pieces, listings, state reports and outputs are written in many calls, and a refusal is looked for
only at the end, or at the end of a line.  Whatever the limits of the stream, it gets the calls up
to the first one that it refuses, and so a front of the text.
-/

namespace BitTape

/-! ## Writing runs one by one -/

section Writers

variable {σ : Type} [Device σ]

/-- Write the run at or after a position, and tell the position behind it. -/
def printPiece (program : Bytes) (position : Nat) (writer : Writer σ) : Nat × Guarded σ :=
  match runAt? program position with
  | none => (program.length, writer.guard)
  | some run =>
      let named := (writer.guard.write run.instruction.mnemonic).1
      (run.stop,
        if 1 < run.length then ((named.write (text "*")).1.write (decimal run.length)).1
        else named)

/-- Write at most a number of lines of a listing from a position on, up to a line in which a call
was refused. -/
def printLines (program : Bytes) : (lines position : Nat) → Guarded σ → Guarded σ
  | 0, _, writer => writer
  | lines + 1, position, writer =>
      match runAt? program position with
      | none => writer
      | some run =>
          let addressed := (writer.write (Run.address run.start ++ text "\t")).1
          let (next, named) := printPiece program run.start (.guarded addressed)
          let ended := (named.write (text "\n")).1
          if ended.failure.isSome then ended else printLines program lines next ended

/-- Write a listing line by line. -/
def printListing (program : Bytes) (writer : Writer σ) : Guarded σ :=
  printLines program program.length 0 writer.guard

theorem printPiece_eq (program : Bytes) (position : Nat) (writer : Writer σ) :
    printPiece program position writer =
      ((pieceAt program position).1, writer.guard.writeAll (pieceAt program position).2) := by
  rw [printPiece, pieceAt]
  cases runAt? program position with
  | none => rfl
  | some run =>
      simp only [Run.chunks]
      split <;> rfl

theorem runAt?_start {program : Bytes} {position : Nat} {run : Run}
    (here : runAt? program position = some run) : runAt? program run.start = some run := by
  have placed : run.start = position + (program.drop position).findIdx isInstruction := by
    simp only [runAt?] at here
    split at here
    · cases here
    · obtain ⟨instruction, -, rfl⟩ := Option.map_eq_some_iff.mp here
      rfl
  rw [placed, runAt?_skip, here]

theorem Lists.length_le {program : Bytes} {position : Nat} {found : List Run}
    (lists : Lists program position found) : found.length ≤ program.length - position := by
  induction lists with
  | stop => exact Nat.zero_le _
  | @line position run found here _ ih =>
      obtain ⟨ahead, -, positive, holds, -⟩ := of_runAt? here
      have last := holds (run.stop - 1) (by rw [Run.Covers, Run.stop]; omega)
      have inside := (List.getElem?_eq_some_iff.mp last).1
      rw [Run.stop] at ih inside
      rw [List.length_cons]
      omega

/-- Line by line the same calls are made as by writing all lines. -/
theorem printLines_eq {program : Bytes} {position : Nat} {found : List Run}
    (lists : Lists program position found) {lines : Nat} (enough : found.length ≤ lines)
    (writer : Guarded σ) :
    printLines program lines position writer = writer.writeAll (found.flatMap Run.line) := by
  induction lists generalizing lines writer with
  | stop none =>
      cases lines with
      | zero => rfl
      | succ lines => simp only [printLines, none, List.flatMap_nil, Guarded.writeAll_nil]
  | @line position run found here _ ih =>
      obtain ⟨lines, rfl⟩ : ∃ less, lines = less + 1 := Nat.exists_eq_add_one.mpr (by
        rw [List.length_cons] at enough
        omega)
      have piece : pieceAt program run.start = (run.stop, run.chunks) := by
        simp only [pieceAt, runAt?_start here]
      simp only [printLines, here, printPiece_eq, piece, Writer.guard]
      rw [List.flatMap_cons, Guarded.writeAll_append, Run.line, List.cons_append,
        Guarded.writeAll_cons, Guarded.writeAll_append, Guarded.writeAll_cons,
        Guarded.writeAll_nil]
      split
      · rename_i failed
        obtain ⟨failure, failed⟩ := Option.isSome_iff_exists.mp failed
        rw [Guarded.writeAll_of_failure failed]
      · exact ih (by simpa using enough) _

theorem printListing_eq (program : Bytes) (writer : Writer σ) :
    printListing program writer = writer.guard.writeAll (listing program) :=
  printLines_eq (lists_runs program) (lists_runs program).length_le writer.guard

end Writers

/-! ## Everything that is printed -/

/-- A text that is written call by call. -/
inductive Printout where
  /-- The run at or after a position. -/
  | piece (program : Bytes) (position : Nat)
  | listing (program : Bytes)
  | report (machine : Machine)
  /-- The output of a machine, perhaps with a line feed at its end. -/
  | output (format : OutputFormat) (newline : Bool) (machine : Machine)

namespace Printout

/-- The calls in which a text is written. -/
def chunks : Printout → List Bytes
  | piece program position => (pieceAt program position).2
  | listing program => BitTape.listing program
  | report machine => machine.report
  | output format newline machine => format.chunks newline machine

/-- Print a text on a device, and tell the first failure. -/
def print {σ : Type} [Device σ] (device : σ) : Printout → σ × Option WriteFailure
  | piece program position =>
      let writer := (printPiece program position (.bare device)).2
      (writer.device, writer.failure)
  | listing program =>
      let writer := printListing program (.bare device)
      (writer.device, writer.failure)
  | report machine => writeGuarded device machine.report
  | output format newline machine => writeGuarded device (format.chunks newline machine)

theorem print_eq {σ : Type} [Device σ] (device : σ) (printout : Printout) :
    printout.print device = writeGuarded device printout.chunks := by
  cases printout with
  | piece program position => rw [print, printPiece_eq]; rfl
  | listing program => rw [print, printListing_eq]; rfl
  | report machine => rfl
  | output format newline machine => rfl

end Printout

/-- A stream with limits gets what a stream without limits gets, up to the first call that it
refuses and of which it takes a part. -/
theorem printout_ends_at_first_refusal (printout : Printout) (calls room : Option Nat) :
    ∃ (whole limited : Sink) (sent received : List Bytes) (failure : Option WriteFailure),
      printout.print (⟨.unlimited, []⟩ : Recorder Sink) = (⟨whole, sent⟩, none) ∧
      whole.content = sent.flatten ∧
      printout.print (⟨.limited calls room, []⟩ : Recorder Sink) =
        (⟨limited, received⟩, failure) ∧
      printout.print (Sink.limited calls room) = (limited, failure) ∧
      writeGuarded (Sink.limited calls room) printout.chunks = (limited, failure) ∧
      limited.content <+: whole.content ∧
      (failure = none ↔ Sink.Takes calls room sent) ∧
      (failure = none → received = sent ∧ limited.content = whole.content) ∧
      (∀ refusal, failure = some refusal →
        refusal.message = text "write failed: short write" ∧
        ∃ front call rest, sent = front ++ call :: rest ∧
          Sink.Takes calls room front ∧ Sink.refuses calls room front call = true ∧
          received = front ++ [call] ∧
          limited.content = front.flatten ++ Sink.partTaken calls room front call) ∧
      ∀ (program : Bytes) (position : Nat) (first second : Writer Sink),
        (printPiece program position first).1 = (printPiece program position second).1 := by
  have whole := Sink.writeGuarded_of_takes (Sink.takes_unlimited printout.chunks)
  have plain := Recorder.writeGuarded_device ⟨Sink.limited calls room, []⟩ printout.chunks
  have position_eq (program : Bytes) (position : Nat) (first second : Writer Sink) :
      (printPiece program position first).1 = (printPiece program position second).1 := by
    rw [printPiece_eq, printPiece_eq]
  simp only [Printout.print_eq]
  rcases Sink.takes_or_refuses calls room printout.chunks with
    takes | ⟨front, call, rest, sent_eq, takes, refused⟩
  · have limited := Sink.writeGuarded_of_takes takes
    rw [limited] at plain
    refine ⟨_, _, _, _, none, whole, rfl, limited, plain, plain, List.prefix_rfl, ?_, ?_, ?_,
      position_eq⟩
    · exact ⟨fun _ => takes, fun _ => rfl⟩
    · exact fun _ => ⟨rfl, rfl⟩
    · intro refusal impossible
      cases impossible
  · obtain ⟨sink, content_eq, limited⟩ := Sink.writeGuarded_of_refuses takes refused rest
    rw [← sent_eq] at limited
    rw [limited] at plain
    refine ⟨_, sink, _, _, some ⟨Sink.shortWrite⟩, whole, rfl, limited, plain, plain, ?_, ?_, ?_,
      ?_, position_eq⟩
    · obtain ⟨left, call_eq⟩ := Sink.partTaken_isPrefix calls room front call
      refine ⟨left ++ rest.flatten, ?_⟩
      rw [content_eq, Sink.content_holdingCalls, sent_eq, List.flatten_append, List.flatten_cons,
        ← List.append_assoc, List.append_assoc front.flatten, call_eq, List.append_assoc]
    · have refusedOne := Sink.not_takes_of_refuses refused rest
      rw [← sent_eq] at refusedOne
      exact iff_of_false (Option.some_ne_none _) refusedOne
    · intro impossible
      cases impossible
    · intro refusal same
      obtain rfl := Option.some.inj same
      exact ⟨rfl, front, call, rest, sent_eq, takes, refused, rfl, content_eq⟩

end BitTape
