import BitTape.Assembly
import BitTape.Proofs.Tokens

/-!
# Alarms and complaints

Reading a source raises an alarm for every stray byte and every character with code zero, and each
alarm is reported once, wherever it stands.  `survey` tells for a sequence of events what assembling
complains about and which instructions it collects.  A source that is assembled raises no alarm: it
is an encoded text, and its events are those of its tokens.
-/

namespace BitTape

/-! ## Marks -/

/-- A glyph that can be read without an alarm. -/
def Glyph.IsQuiet (glyph : Glyph) : Prop :=
  ∃ char : Char, glyph = .char char ∧ char ≠ '\x00'

theorem glyphAlarms_eq_nil_iff (last position : Position) (glyph : Glyph) :
    glyphAlarms none last position glyph = [] ↔ glyph.IsQuiet := by
  cases glyph with
  | char scalar =>
      have code : scalar.toNat = 0 ↔ scalar = '\x00' := by
        rw [← Char.toNat_inj]
        rfl
      simp [glyphAlarms, Glyph.IsQuiet, code]
  | stray byte unfinished => simp [glyphAlarms, Glyph.IsQuiet]

section Placing

variable (failure : Option Bytes) (last position : Position) (found : List Glyph)

theorem placeFrom_cons (glyph : Glyph) :
    placeFrom failure last position (glyph :: found) =
      (⟨glyph, position, glyphAlarms failure last position glyph⟩ ::
          (placeFrom failure position (position.after glyph) found).1,
        (placeFrom failure position (position.after glyph) found).2) := rfl

theorem map_glyph_placeFrom :
    (placeFrom failure last position found).1.map Mark.glyph = found := by
  induction found generalizing last position with
  | nil => rfl
  | cons glyph rest ih => rw [placeFrom_cons, List.map_cons, ih]

theorem placeFrom_ending : (placeFrom none last position found).2 = [] := by
  induction found generalizing last position with
  | nil => rfl
  | cons glyph rest ih => rw [placeFrom_cons, ih]

theorem placeFrom_alarms_iff :
    (∀ mark ∈ (placeFrom none last position found).1, mark.alarms = []) ↔
      ∀ glyph ∈ found, glyph.IsQuiet := by
  induction found generalizing last position with
  | nil => simp [placeFrom]
  | cons glyph rest ih =>
      rw [placeFrom_cons, List.forall_mem_cons, List.forall_mem_cons, ih, glyphAlarms_eq_nil_iff]

omit failure last found in
theorem Position.offset_lt_after (glyph : Glyph) :
    position.offset < (position.after glyph).offset := by
  have positive : 0 < glyph.size := by
    cases glyph with
    | char scalar =>
        rw [Glyph.size, Glyph.bytes, String.length_utf8EncodeChar]
        exact scalar.utf8Size_pos
    | stray byte unfinished => exact Nat.one_pos
  unfold Position.after
  split <;> exact Nat.lt_add_of_pos_right positive

theorem offset_le_placeFrom {mark : Mark}
    (placed : mark ∈ (placeFrom failure last position found).1) :
    position.offset ≤ mark.position.offset := by
  induction found generalizing last position with
  | nil => simp [placeFrom] at placed
  | cons glyph rest ih =>
      rw [placeFrom_cons] at placed
      rcases List.mem_cons.mp placed with rfl | behind
      · exact Nat.le_refl _
      · have later := position.offset_lt_after glyph
        have bound := ih _ _ behind
        omega

end Placing

/-! ## Events -/

namespace Lexeme

/-- All glyphs of a lexeme. -/
def marks (lexeme : Lexeme) : List Mark :=
  lexeme.first :: lexeme.others

theorem marks_cut (mark : Mark) (rest : List Mark) :
    (cut mark rest).1.marks ++ rest.drop (cut mark rest).2 = mark :: rest := by
  unfold cut
  split
  · rfl
  · split
    · rfl
    · have split := List.takeWhile_append_dropWhile (p := Mark.isWord) (l := rest)
      have behind := (congrArg (List.drop (rest.takeWhile Mark.isWord).length) split.symm).trans
        List.drop_left
      simp only [marks, first, others, List.cons_append, behind, split]

end Lexeme

theorem flatMap_marks_lexemes (marks : List Mark) :
    (lexemes marks).flatMap Lexeme.marks = marks := by
  induction length_eq : marks.length using Nat.strongRecOn generalizing marks with
  | ind length ih =>
      cases marks with
      | nil => rfl
      | cons mark rest =>
          have shorter : (rest.drop (Lexeme.cut mark rest).2).length < length := by
            rw [← length_eq, List.length_drop, List.length_cons]
            omega
          rw [lexemes_cons, List.flatMap_cons, ih _ shorter _ rfl, Lexeme.marks_cut]

/-- The complaint of an alarm. -/
def Event.alarm? : Event → Option Complaint
  | .alarm diagnostic => some diagnostic.complaint
  | _ => none

theorem Lexeme.alarm?_of_event? {lexeme : Lexeme} {event : Event}
    (found : lexeme.event? = some event) : event.alarm? = none := by
  cases lexeme <;> cases found <;> rfl

/-- Every alarm becomes one event; a word has reported those of the glyph behind it. -/
theorem alarms_eventsFrom (ending : List Diagnostic) (pending : Bool) (found : List Lexeme) :
    (if pending then [] else (nextAlarms ending found).map Diagnostic.complaint) ++
        (eventsFrom ending pending found).filterMap Event.alarm? =
      ((found.flatMap Lexeme.marks).flatMap Mark.alarms ++ ending).map Diagnostic.complaint := by
  have plain (alarms : List Diagnostic) :
      (alarms.map Event.alarm).filterMap Event.alarm? = alarms.map Diagnostic.complaint := by
    rw [List.filterMap_map]
    exact congrFun List.filterMap_eq_map alarms
  have moved (position : Position) (alarms : List Diagnostic) :
      (alarmsAt position alarms).filterMap Event.alarm? = alarms.map Diagnostic.complaint := by
    rw [alarmsAt, List.filterMap_map]
    exact congrFun List.filterMap_eq_map alarms
  induction found generalizing pending with
  | nil => cases pending <;> simp [eventsFrom, nextAlarms, plain]
  | cons lexeme rest ih =>
      have first : (if pending then [] else
            (nextAlarms ending (lexeme :: rest)).map Diagnostic.complaint) ++
          (if pending then lexeme.first.alarms.map Event.alarm else []).filterMap Event.alarm? =
            lexeme.first.alarms.map Diagnostic.complaint := by
        cases pending <;> simp [nextAlarms, plain]
      rw [eventsFrom, List.filterMap_append, ← List.append_assoc, first]
      cases event : lexeme.event? with
      | none =>
          have single : lexeme.others = [] := by
            cases lexeme <;> simp_all [Lexeme.event?, Lexeme.others]
          have others := ih true
          simp only [if_true, List.nil_append] at others
          simp [others, Lexeme.marks, single]
      | some event =>
          have others := ih false
          simp only [Bool.false_eq_true, if_false] at others
          simp only [List.filterMap_append, moved, List.filterMap_cons,
            Lexeme.alarm?_of_event? ‹_›, List.map_append, List.append_assoc, others]
          simp [Lexeme.marks]

/-- Without alarms the events of a source are those of its lexemes. -/
theorem eventsFrom_of_quiet {found : List Lexeme}
    (quiet : ∀ lexeme ∈ found, ∀ mark ∈ lexeme.marks, mark.alarms = []) (pending : Bool) :
    eventsFrom [] pending found = found.filterMap Lexeme.event? := by
  induction found generalizing pending with
  | nil => cases pending <;> rfl
  | cons lexeme rest ih =>
      have quietRest : ∀ other ∈ rest, ∀ mark ∈ other.marks, mark.alarms = [] :=
        fun other isRest => quiet other (List.mem_cons_of_mem lexeme isRest)
      have first : lexeme.first.alarms = [] :=
        quiet lexeme List.mem_cons_self _ List.mem_cons_self
      have others : lexeme.others.flatMap Mark.alarms = [] := by
        rw [List.flatMap_eq_nil_iff]
        exact fun mark isOther =>
          quiet lexeme List.mem_cons_self mark (List.mem_cons_of_mem _ isOther)
      have next : nextAlarms [] rest = [] := by
        cases rest with
        | nil => rfl
        | cons other later =>
            exact quiet other (by simp) _ List.mem_cons_self
      rw [eventsFrom, first]
      cases event : lexeme.event? <;>
        simp [event, others, next, alarmsAt, ih quietRest]

/-! ## Surveys -/

/-- The complaints about events and the instructions of their words, inside a comment or not. -/
def survey : (inside : Bool) → List Event → List Complaint × Bytes
  | false, [] => ([], [])
  | true, [] => ([.unterminatedComment], [])
  | inside, .alarm diagnostic :: rest =>
      (diagnostic.complaint :: (survey inside rest).1, (survey inside rest).2)
  | false, .word _ word :: rest =>
      if word = commentStart then survey true rest
      else
        match compileWord word with
        | .ok expansion => ((survey false rest).1, expansion.code ++ (survey false rest).2)
        | .error complaint => (complaint :: (survey false rest).1, (survey false rest).2)
  | true, .word _ word :: rest => if word = commentEnd then survey false rest else survey true rest
  | false, .odd _ char :: rest =>
      (.unexpectedChar char :: (survey false rest).1, (survey false rest).2)
  | true, .odd _ _ :: rest => survey true rest

theorem compileWord_commentStart :
    compileWord commentStart = .error (.unknownInstruction commentStart) := by
  decide

theorem alarms_sublist_survey (inside : Bool) (events : List Event) :
    (events.filterMap Event.alarm?).Sublist (survey inside events).1 := by
  induction events generalizing inside with
  | nil => exact List.nil_sublist _
  | cons event rest ih =>
      cases event with
      | alarm diagnostic =>
          have here : survey inside (.alarm diagnostic :: rest) =
              (diagnostic.complaint :: (survey inside rest).1, (survey inside rest).2) := by
            cases inside <;> rfl
          rw [here]
          exact (ih inside).cons_cons _
      | word position word =>
          cases inside with
          | false =>
              simp only [survey]
              split
              · exact ih true
              · split
                · exact ih false
                · exact (ih false).cons _
          | true =>
              simp only [survey]
              split
              · exact ih false
              · exact ih true
      | odd position char =>
          cases inside with
          | false => exact (ih false).cons _
          | true => exact ih true

namespace Draft

/-- The complaints and the instructions of a draft if the rest of the source adds some. -/
def joined (draft : Draft) (rest : List Complaint × Bytes) : List Complaint × Bytes :=
  (draft.diagnostics.toList.map Diagnostic.complaint ++ rest.1, draft.code ++ rest.2)

theorem joined_complain (draft : Draft) (position : Position) (complaint : Complaint)
    (rest : List Complaint × Bytes) :
    (draft.complain position complaint).joined rest =
      draft.joined (complaint :: rest.1, rest.2) := by
  simp [joined, complain, code]

theorem joined_add (draft : Draft) (event : Event) (rest : List Event) :
    (draft.add event).joined (survey (draft.add event).comment.isSome rest) =
      draft.joined (survey draft.comment.isSome (event :: rest)) := by
  cases event with
  | alarm diagnostic =>
      rw [add, joined_complain]
      cases comment : draft.comment <;> simp [survey, complain, comment]
  | word position word =>
      cases comment : draft.comment with
      | none =>
          simp only [add, addWord, comment, Option.isSome_none, survey]
          split
          · rfl
          · cases compileWord word with
            | ok expansion => simp [joined, code]
            | error complaint =>
                simp only [joined_complain]
                simp [complain, comment]
      | some start =>
          simp only [add, comment, Option.isSome_some, survey]
          split
          · rfl
          · rw [comment]
            rfl
  | odd position char =>
      cases comment : draft.comment with
      | none =>
          simp only [add, comment, Option.isSome_none, survey]
          rw [joined_complain]
          simp [complain, comment]
      | some start => simp [add, comment, survey]

theorem joined_nil (draft : Draft) :
    draft.joined (survey draft.comment.isSome []) =
      (draft.allDiagnostics.map Diagnostic.complaint, draft.code) := by
  cases comment : draft.comment <;> simp [joined, survey, allDiagnostics, comment]

/-- Taking in all events amounts to their survey. -/
theorem joined_foldl (draft : Draft) (events : List Event) :
    (((events.foldl add draft).allDiagnostics.map Diagnostic.complaint,
        (events.foldl add draft).code) : List Complaint × Bytes) =
      draft.joined (survey draft.comment.isSome events) := by
  induction events generalizing draft with
  | nil => exact draft.joined_nil.symm
  | cons event rest ih => rw [List.foldl_cons, ih, joined_add]

end Draft

/-! ## Sources -/

theorem survey_events (source : Source) :
    survey false source.events =
      ((source.events.foldl Draft.add .empty).allDiagnostics.map Diagnostic.complaint,
        (source.events.foldl Draft.add .empty).code) :=
  (Draft.empty.joined_foldl source.events).symm

/-- A source is assembled if its survey has no complaint. -/
theorem assemble_eq_ok_iff {source : Source} {program : Bytes} :
    assemble source = .ok program ↔ survey false source.events = ([], program) := by
  rw [survey_events, Prod.mk.injEq, List.map_eq_nil_iff, assemble]
  constructor
  · intro assembled
    split at assembled
    · rename_i none
      exact ⟨none, Except.ok.inj assembled⟩
    · cases assembled
  · rintro ⟨none, rfl⟩
    rw [none]

/-- Otherwise the first complaints are reported. -/
theorem exists_diagnostics_of_survey {source : Source}
    (found : (survey false source.events).1 ≠ []) :
    ∃ diagnostics, assemble source = .error diagnostics ∧
      diagnostics.map Diagnostic.complaint =
        (survey false source.events).1.take maxDiagnostics := by
  rw [survey_events] at found ⊢
  refine ⟨_, ?_, List.map_take⟩
  rw [assemble]
  split
  · rename_i none
    exact (found (List.map_eq_nil_iff.mpr none)).elim
  · rfl

theorem Source.events_eq (source : Source) :
    source.events = eventsFrom source.marks.2 true (lexemes source.marks.1) := rfl

/-- A source that is assembled raises no alarm, neither at a glyph nor at its end. -/
theorem alarms_eq_nil_of_assemble {source : Source} {program : Bytes}
    (assembled : assemble source = .ok program) :
    source.marks.1.flatMap Mark.alarms = [] ∧ source.marks.2 = [] := by
  have noAlarms : source.events.filterMap Event.alarm? = [] := by
    have reported := alarms_sublist_survey false source.events
    rw [assemble_eq_ok_iff.mp assembled] at reported
    exact List.sublist_nil.mp reported
  have reported := alarms_eventsFrom source.marks.2 true (lexemes source.marks.1)
  rw [flatMap_marks_lexemes, ← source.events_eq, noAlarms] at reported
  exact List.append_eq_nil_iff.mp (List.map_eq_nil_iff.mp reported.symm)

/-- A source that is read without a failure and assembled is the encoding of a text. -/
theorem exists_text_of_assemble {bytes program : Bytes}
    (assembled : assemble ⟨bytes, none⟩ = .ok program) :
    ∃ chars, bytes = encode chars ∧ '\x00' ∉ chars := by
  have quiet : ∀ glyph ∈ glyphs bytes, glyph.IsQuiet := by
    rw [← placeFrom_alarms_iff .start .start, ← List.flatMap_eq_nil_iff]
    exact (alarms_eq_nil_of_assemble assembled).1
  obtain ⟨chars, found⟩ := exists_chars_of_glyphs fun glyph present =>
    (quiet glyph present).imp fun _ isChar => isChar.1
  refine ⟨chars, eq_encode_of_glyphs found, ?_⟩
  intro present
  have zero : Glyph.char '\x00' ∈ glyphs bytes := found ▸ List.mem_map_of_mem present
  obtain ⟨char, same, nonzero⟩ := quiet _ zero
  exact nonzero (Glyph.char.inj same).symm

/-- A text without the byte order mark at its start. -/
def withoutByteOrderMark (chars : List Char) : List Char :=
  if chars.head? = some '\ufeff' then chars.tail else chars

/-- The marks of an encoded text. -/
def textMarks (chars : List Char) : List Mark :=
  (placeFrom none .start .start (chars.map .char)).1

theorem events_of_text {chars : List Char} (noZero : '\x00' ∉ chars) :
    (⟨encode chars, none⟩ : Source).events =
      (lexemes (textMarks chars)).filterMap Lexeme.event? := by
  have quietGlyphs : ∀ glyph ∈ chars.map Glyph.char, glyph.IsQuiet := by
    intro glyph present
    obtain ⟨char, isChar, rfl⟩ := List.mem_map.mp present
    exact ⟨char, rfl, fun zero => noZero (zero ▸ isChar)⟩
  have quietMarks : ∀ mark ∈ textMarks chars, mark.alarms = [] :=
    (placeFrom_alarms_iff ..).mpr quietGlyphs
  have quiet : ∀ lexeme ∈ lexemes (textMarks chars), ∀ mark ∈ lexeme.marks,
      mark.alarms = [] := by
    intro lexeme present mark inside
    refine quietMarks mark ?_
    rw [← flatMap_marks_lexemes (textMarks chars)]
    exact List.mem_flatMap.mpr ⟨lexeme, present, inside⟩
  rw [Source.events_eq, Source.marks, glyphs_encode, placeFrom_ending, ← textMarks,
    eventsFrom_of_quiet quiet]

/-- The byte order mark at the start of a text, or nothing. -/
def byteOrderMark (chars : List Char) : List Char :=
  if chars.head? = some '\ufeff' then ['\ufeff'] else []

/-- The position behind characters at the start of a source, counted glyph by glyph. -/
def Position.afterAll (chars : List Char) : Position :=
  chars.foldl (fun position char => position.after (.char char)) .start

/-- The events of an encoded text are those of its tokens, which start behind a byte order mark. -/
theorem exists_placed_lexemes {chars : List Char} (noZero : '\x00' ∉ chars) :
    ∃ found, List.Forall₂ Lexeme.Reads found (tokens (withoutByteOrderMark chars)) ∧
      (⟨encode chars, none⟩ : Source).events = found.filterMap Lexeme.event? ∧
      found.flatMap Lexeme.marks =
        (placeFrom none .start (Position.afterAll (byteOrderMark chars))
          ((withoutByteOrderMark chars).map .char)).1 := by
  rw [events_of_text noZero]
  cases chars with
  | nil => exact ⟨[], .nil, rfl, rfl⟩
  | cons char rest =>
      have later : ∀ mark ∈ (placeFrom none .start (Position.start.after (.char char))
          (rest.map .char)).1, mark.position.offset ≠ 0 := by
        intro mark placed
        have behind := offset_le_placeFrom _ _ _ _ placed
        have positive := Position.start.offset_lt_after (.char char)
        omega
      by_cases marked : char = '\ufeff'
      · subst marked
        refine ⟨lexemes _, lexemes_read (map_glyph_placeFrom ..) fun mark placed _ =>
          later mark placed, ?_, flatMap_marks_lexemes _⟩
        rw [textMarks, List.map_cons, placeFrom_cons, lexemes_cons]
        rfl
      · have unmarked : withoutByteOrderMark (char :: rest) = char :: rest := by
          simp [withoutByteOrderMark, marked]
        have atStart : byteOrderMark (char :: rest) = [] := by
          simp [byteOrderMark, marked]
        rw [unmarked, atStart]
        refine ⟨_, lexemes_read (map_glyph_placeFrom ..) ?_, rfl, flatMap_marks_lexemes _⟩
        intro mark placed isMark
        rw [List.map_cons, placeFrom_cons] at placed
        rcases List.mem_cons.mp placed with rfl | behind
        · exact (marked (Glyph.char.inj isMark)).elim
        · exact later mark behind

theorem exists_lexemes_of_text {chars : List Char} (noZero : '\x00' ∉ chars) :
    ∃ found, List.Forall₂ Lexeme.Reads found (tokens (withoutByteOrderMark chars)) ∧
      (⟨encode chars, none⟩ : Source).events = found.filterMap Lexeme.event? := by
  obtain ⟨found, reads, events, -⟩ := exists_placed_lexemes noZero
  exact ⟨found, reads, events⟩

end BitTape
