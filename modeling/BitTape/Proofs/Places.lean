import BitTape.Proofs.Alarms
import BitTape.Proofs.Positions

/-!
# Places of complaints

A source may be any byte string, and reading it may fail.  Everything that reading comes upon has
the place of a glyph, and the places never go back: they climb through the fronts of the source.  So
the complaints about a source are in the order of their places, but for that about a comment without
end.
-/

namespace BitTape

/-! ## Climbs -/

/-- Positions behind fronts of a source that only grow, from one front to another. -/
inductive Climb :
    (low : List Glyph) → (positions : List Position) → (high : List Glyph) → Prop where
  | rest {low high : List Glyph} : low <+: high → Climb low [] high
  | step {low here high : List Glyph} {positions : List Position} :
      low <+: here → Climb here positions high →
        Climb low (.behindGlyphs here :: positions) high

namespace Climb

variable {low here high : List Glyph} {positions more : List Position}

theorem isPrefix (climb : Climb low positions high) : low <+: high := by
  induction climb with
  | rest front => exact front
  | step front _ ih => exact front.trans ih

theorem of_lower (front : low <+: here) (climb : Climb here positions high) :
    Climb low positions high := by
  cases climb with
  | rest behind => exact .rest (front.trans behind)
  | step behind climb => exact .step (front.trans behind) climb

theorem append (first : Climb low positions here) (second : Climb here more high) :
    Climb low (positions ++ more) high := by
  induction first with
  | rest front => exact second.of_lower front
  | step front _ ih => exact .step front (ih second)

theorem stay (same : ∀ position ∈ positions, position = .behindGlyphs here) :
    Climb here positions here := by
  induction positions with
  | nil => exact .rest List.prefix_rfl
  | cons position positions ih =>
      obtain rfl := same position List.mem_cons_self
      exact .step List.prefix_rfl
        (ih fun other isRest => same other (List.mem_cons_of_mem _ isRest))

theorem of_sublist (climb : Climb low positions high) (fewer : more.Sublist positions) :
    Climb low more high := by
  induction climb generalizing more with
  | rest front =>
      obtain rfl := List.sublist_nil.mp fewer
      exact .rest front
  | step front _ ih =>
      cases fewer with
      | cons _ fewer => exact (ih fewer).of_lower front
      | cons_cons _ fewer => exact .step front (ih fewer)

theorem exists_front (climb : Climb low positions high) {position : Position}
    (present : position ∈ positions) :
    ∃ before, low <+: before ∧ before <+: high ∧ position = .behindGlyphs before := by
  induction climb with
  | rest => cases present
  | @step low here high positions front climb ih =>
      rcases List.mem_cons.mp present with rfl | isRest
      · exact ⟨here, front, climb.isPrefix, rfl⟩
      · obtain ⟨before, behind, inside, position_eq⟩ := ih isRest
        exact ⟨before, front.trans behind, inside, position_eq⟩

/-- Positions of a climb do not go back. -/
theorem pairwise (climb : Climb low positions high) :
    positions.Pairwise fun first second => first.offset ≤ second.offset := by
  induction climb with
  | rest => exact .nil
  | step _ climb ih =>
      refine .cons (fun position isLater => ?_) ih
      obtain ⟨before, behind, -, rfl⟩ := climb.exists_front isLater
      exact Position.offset_behindGlyphs_le behind

end Climb

/-! ## Marks -/

/-- Marks of the glyphs from a front `here` on.  The alarms of a mark stand at its own place or at
that of the glyph before, which is behind `last`. -/
inductive Trail (ending : List Diagnostic) (all : List Glyph) :
    (last here : List Glyph) → List Mark → Prop where
  | done {last : List Glyph} :
      Climb last (ending.map Diagnostic.position) all → Trail ending all last all []
  | mark {last here : List Glyph} {mark : Mark} {marks : List Mark} :
      mark.position = .behindGlyphs here →
        Climb last (mark.alarms.map Diagnostic.position) here →
          Trail ending all here (here ++ [mark.glyph]) marks →
            Trail ending all last here (mark :: marks)

theorem climb_readAlarms (failure : Option Bytes) {last here : List Glyph} (front : last <+: here) :
    Climb last ((readAlarms failure (.behindGlyphs last)).map Diagnostic.position) here := by
  cases failure with
  | none => exact .rest front
  | some reason => exact .step List.prefix_rfl (.rest front)

theorem climb_glyphAlarms (failure : Option Bytes) {last here : List Glyph} (front : last <+: here)
    (glyph : Glyph) :
    Climb last
      ((glyphAlarms failure (.behindGlyphs last) (.behindGlyphs here) glyph).map
        Diagnostic.position) here := by
  have once : Climb here [.behindGlyphs here] here := .step List.prefix_rfl (.rest List.prefix_rfl)
  cases glyph with
  | char scalar =>
      rw [glyphAlarms]
      split
      · exact once.of_lower front
      · exact .rest front
  | stray byte unfinished =>
      rw [glyphAlarms, List.map_append]
      refine Climb.append ?_ once
      cases unfinished with
      | false => exact .rest front
      | true => exact climb_readAlarms failure front

/-- Placing the glyphs of a source leaves such a trail. -/
theorem trail_placeFrom (failure : Option Bytes) {last here : List Glyph} (front : last <+: here)
    (found : List Glyph) :
    Trail (placeFrom failure (.behindGlyphs last) (.behindGlyphs here) found).2 (here ++ found)
      last here (placeFrom failure (.behindGlyphs last) (.behindGlyphs here) found).1 := by
  induction found generalizing last here with
  | nil =>
      rw [List.append_nil]
      exact .done (climb_readAlarms failure front)
  | cons glyph rest ih =>
      have behind := @ih here (here ++ [glyph]) (List.prefix_append _ _)
      rw [List.append_assoc, List.singleton_append, Position.behindGlyphs_snoc] at behind
      rw [placeFrom_cons]
      exact .mark rfl (climb_glyphAlarms failure front glyph) behind

theorem Trail.of_append {ending : List Diagnostic} {all last here : List Glyph}
    {front back : List Mark} (trail : Trail ending all last here (front ++ back)) :
    ∃ later there, last <+: later ∧ Trail ending all later there back := by
  induction front generalizing last here with
  | nil => exact ⟨last, here, List.prefix_rfl, trail⟩
  | cons mark front ih =>
      cases trail with
      | mark _ climb trail =>
          obtain ⟨later, there, behind, rest⟩ := ih trail
          exact ⟨later, there, climb.isPrefix.trans behind, rest⟩

/-! ## Events -/

/-- The place of an event. -/
def Event.position : Event → Position
  | .alarm diagnostic => diagnostic.position
  | .word position _ => position
  | .odd position _ => position

theorem Lexeme.position_of_event? {lexeme : Lexeme} {event : Event}
    (found : lexeme.event? = some event) : event.position = lexeme.first.position := by
  cases lexeme <;> cases found <;> rfl

theorem map_position_alarm (alarms : List Diagnostic) :
    (alarms.map Event.alarm).map Event.position = alarms.map Diagnostic.position := by
  rw [List.map_map]
  rfl

/-- What reading comes upon stands at places that do not go back: an alarm is moved to the start of
the word before it at most. -/
theorem Trail.climb_events {ending : List Diagnostic} {all last here : List Glyph}
    {found : List Lexeme} (trail : Trail ending all last here (found.flatMap Lexeme.marks))
    (pending : Bool) :
    Climb last ((eventsFrom ending pending found).map Event.position) all := by
  induction found generalizing last here pending with
  | nil =>
      cases trail with
      | done climb =>
          cases pending with
          | false => exact .rest climb.isPrefix
          | true => simpa only [eventsFrom, if_true, map_position_alarm] using climb
  | cons lexeme rest ih =>
      rw [List.flatMap_cons, Lexeme.marks, List.cons_append] at trail
      cases trail with
      | mark position_eq climb trail =>
          obtain ⟨later, there, behind, trail⟩ := trail.of_append
          have before : Climb last
              ((if pending then lexeme.first.alarms.map Event.alarm else []).map
                Event.position) here := by
            cases pending with
            | false => exact .rest climb.isPrefix
            | true => simpa only [if_true, map_position_alarm] using climb
          rw [eventsFrom, List.map_append]
          refine before.append ?_
          cases found : lexeme.event? with
          | none => exact (ih trail true).of_lower behind
          | some event =>
              have later := (ih trail false).of_lower behind
              simp only [List.map_append, List.map_cons, Lexeme.position_of_event? found,
                position_eq]
              refine Climb.append (.stay ?_) (.step List.prefix_rfl later)
              intro position present
              rw [alarmsAt, List.map_map, List.mem_map] at present
              obtain ⟨alarm, -, rfl⟩ := present
              rfl

theorem climb_events (source : Source) :
    Climb [] (source.events.map Event.position) (glyphs source.bytes) := by
  have trail : Trail source.marks.2 (glyphs source.bytes) [] [] source.marks.1 :=
    trail_placeFrom source.failure (List.prefix_rfl : [] <+: []) (glyphs source.bytes)
  rw [← flatMap_marks_lexemes source.marks.1] at trail
  exact trail.climb_events true

/-! ## Complaints -/

namespace Draft

/-- One event adds at most one complaint, about its own place. -/
theorem diagnostics_add (draft : Draft) (event : Event) :
    ∃ noted, (draft.add event).diagnostics.toList = draft.diagnostics.toList ++ noted ∧
      (noted.map Diagnostic.position).Sublist [event.position] := by
  have complains (position : Position) (complaint : Complaint) :
      ∃ noted, (draft.complain position complaint).diagnostics.toList =
          draft.diagnostics.toList ++ noted ∧
        (noted.map Diagnostic.position).Sublist [position] :=
    ⟨[⟨position, complaint⟩], Array.toList_push, List.Sublist.refl _⟩
  have keeps {next : Draft} (same : next.diagnostics = draft.diagnostics) :
      ∃ noted, next.diagnostics.toList = draft.diagnostics.toList ++ noted ∧
        (noted.map Diagnostic.position).Sublist [event.position] :=
    ⟨[], by rw [same, List.append_nil], List.nil_sublist _⟩
  cases event with
  | alarm diagnostic => exact complains _ _
  | word position word =>
      simp only [add]
      split
      · rw [addWord]
        split
        · exact keeps rfl
        · split
          · exact keeps rfl
          · exact complains _ _
      · split <;> exact keeps rfl
  | odd position char =>
      simp only [add]
      split
      · exact complains _ _
      · exact keeps rfl

theorem comment_add (draft : Draft) (event : Event) {start : Position}
    (commented : (draft.add event).comment = some start) :
    draft.comment = some start ∨ start = event.position := by
  cases event with
  | alarm diagnostic => exact .inl commented
  | word position word =>
      simp only [add] at commented
      split at commented
      · rw [addWord] at commented
        split at commented
        · exact .inr (Option.some.inj commented).symm
        · split at commented <;> exact .inl commented
      · split at commented
        · cases commented
        · exact .inl commented
  | odd position char =>
      simp only [add] at commented
      split at commented <;> exact .inl commented

theorem diagnostics_foldl (draft : Draft) (events : List Event) :
    ∃ noted, (events.foldl add draft).diagnostics.toList = draft.diagnostics.toList ++ noted ∧
      (noted.map Diagnostic.position).Sublist (events.map Event.position) := by
  induction events generalizing draft with
  | nil => exact ⟨[], (List.append_nil _).symm, List.Sublist.refl _⟩
  | cons event rest ih =>
      obtain ⟨first, first_eq, firstPlace⟩ := draft.diagnostics_add event
      obtain ⟨others, others_eq, otherPlaces⟩ := ih (draft.add event)
      refine ⟨first ++ others, ?_, ?_⟩
      · rw [List.foldl_cons, others_eq, first_eq, List.append_assoc]
      · rw [List.map_append]
        exact firstPlace.append otherPlaces

theorem comment_foldl (draft : Draft) (events : List Event) {start : Position}
    (commented : (events.foldl add draft).comment = some start) :
    draft.comment = some start ∨ start ∈ events.map Event.position := by
  induction events generalizing draft with
  | nil => exact .inl commented
  | cons event rest ih =>
      rcases ih (draft.add event) commented with before | later
      · rcases draft.comment_add event before with earlier | rfl
        · exact .inl earlier
        · exact .inr List.mem_cons_self
      · exact .inr (List.mem_cons_of_mem _ later)

end Draft

/-! ## Sources -/

section Sources

variable {source : Source}

theorem climb_diagnostics (source : Source) :
    Climb [] ((source.events.foldl Draft.add .empty).diagnostics.toList.map Diagnostic.position)
      (glyphs source.bytes) := by
  obtain ⟨noted, noted_eq, places⟩ := Draft.empty.diagnostics_foldl source.events
  rw [noted_eq]
  exact (climb_events source).of_sublist places

theorem exists_front_of_diagnostic {diagnostic : Diagnostic}
    (present : diagnostic ∈ (source.events.foldl Draft.add .empty).allDiagnostics) :
    ∃ before, before <+: glyphs source.bytes ∧ diagnostic.position = .behindGlyphs before := by
  rw [Draft.allDiagnostics, List.mem_append, List.mem_map] at present
  rcases present with noted | ⟨start, commented, rfl⟩
  · obtain ⟨before, -, front, position_eq⟩ :=
      (climb_diagnostics source).exists_front (List.mem_map_of_mem noted)
    exact ⟨before, front, position_eq⟩
  · rcases Draft.empty.comment_foldl source.events (Option.mem_toList.mp commented) with
      impossible | isEvent
    · cases impossible
    · obtain ⟨before, -, front, position_eq⟩ := (climb_events source).exists_front isEvent
      exact ⟨before, front, position_eq⟩

/-- Only a comment without end is reported out of order, as the last complaint. -/
theorem exists_ordered (source : Source) (count : Nat) :
    ∃ ordered last,
      (source.events.foldl Draft.add .empty).allDiagnostics.take count = ordered ++ last ∧
      ordered.Pairwise (fun first second => first.position.offset ≤ second.position.offset) ∧
      (last = [] ∨ ∃ start, last = [⟨start, .unterminatedComment⟩]) := by
  have ordered := List.pairwise_map.mp (climb_diagnostics source).pairwise
  refine ⟨_, _, List.take_append, ordered.sublist (List.take_sublist _ _), ?_⟩
  cases (source.events.foldl Draft.add .empty).comment with
  | none => exact .inl List.take_nil
  | some start =>
      cases count - (source.events.foldl Draft.add .empty).diagnostics.toList.length with
      | zero => exact .inl rfl
      | succ more => exact .inr ⟨start, List.take_of_length_le (Nat.le_add_left 1 more)⟩

theorem of_assemble_eq_error {diagnostics : List Diagnostic}
    (refused : assemble source = .error diagnostics) :
    diagnostics ≠ [] ∧
      diagnostics =
        (source.events.foldl Draft.add .empty).allDiagnostics.take maxDiagnostics := by
  rw [assemble] at refused
  split at refused
  · cases refused
  · rename_i found
    obtain rfl := Except.error.inj refused
    exact ⟨by simpa [maxDiagnostics] using found, rfl⟩

theorem placeFrom_ending_ne_nil (reason : Bytes) (last position : Position) (found : List Glyph) :
    (placeFrom (some reason) last position found).2 ≠ [] := by
  induction found generalizing last position with
  | nil => exact List.cons_ne_nil _ _
  | cons glyph rest ih =>
      rw [placeFrom_cons]
      exact ih _ _

/-- A source whose reading fails is not assembled. -/
theorem assemble_ne_ok_of_failure {reason : Bytes} (failed : source.failure = some reason)
    (program : Bytes) : assemble source ≠ .ok program := by
  intro assembled
  obtain ⟨-, noEnding⟩ := alarms_eq_nil_of_assemble assembled
  rw [Source.marks, failed] at noEnding
  exact placeFrom_ending_ne_nil _ _ _ _ noEnding

/-- A source that is assembled is encoded text without the byte zero. -/
theorem encoded_of_assemble {program : Bytes} (assembled : assemble source = .ok program) :
    source.failure = none ∧ (∃ chars, source.bytes = encode chars) ∧ 0 ∉ source.bytes := by
  have noFailure : source.failure = none := by
    cases failed : source.failure with
    | none => rfl
    | some reason => exact (assemble_ne_ok_of_failure failed program assembled).elim
  have source_eq : source = ⟨source.bytes, none⟩ := by rw [← noFailure]
  rw [source_eq] at assembled
  obtain ⟨chars, bytes_eq, noZero⟩ := exists_text_of_assemble assembled
  refine ⟨noFailure, ⟨chars, bytes_eq⟩, ?_⟩
  rw [bytes_eq, encode, List.mem_flatMap]
  rintro ⟨char, isChar, holds⟩
  have isZero : char = '\x00' := (mem_utf8EncodeChar_iff (by decide)).mp holds
  exact noZero (isZero ▸ isChar)

end Sources

/-- A line of a report that tells the place of a glyph of a source, or of its end. -/
structure ReportEntry.IsPlaced (bytes : Bytes) (entry : ReportEntry) : Prop where
  offset_nonneg : 0 ≤ entry.offset
  offset_le : entry.offset ≤ bytes.length
  line_eq : entry.line = 1 + (bytes.take entry.offset.toNat).count lineFeed
  column_eq : entry.column = 1 + (glyphs (lastLine (bytes.take entry.offset.toNat))).length
  /-- The place is not inside a glyph. -/
  between : ∃ before after, glyphs bytes = before ++ after ∧
    before.flatMap Glyph.bytes = bytes.take entry.offset.toNat

theorem isPlaced_of_front {bytes : Bytes} {before : List Glyph} (front : before <+: glyphs bytes)
    (file : Bytes) (complaint : Complaint) :
    (Diagnostic.entry file ⟨.behindGlyphs before, complaint⟩).IsPlaced bytes := by
  obtain ⟨after, split⟩ := front
  have bytes_eq : bytes = before.flatMap Glyph.bytes ++ after.flatMap Glyph.bytes := by
    rw [← List.flatMap_append, split, flatMap_bytes_glyphs]
  have taken : bytes.take (before.flatMap Glyph.bytes).length = before.flatMap Glyph.bytes := by
    conv => lhs; rw [bytes_eq]
    exact List.take_left
  have inside : (before.flatMap Glyph.bytes).length ≤ bytes.length := by
    rw [bytes_eq, List.length_append]
    exact Nat.le_add_right _ _
  rw [behindGlyphs_eq_of_glyphs split.symm, Diagnostic.entry]
  constructor
  case offset_nonneg => exact Int.natCast_nonneg _
  case offset_le => exact Int.ofNat_le.mpr inside
  case line_eq => simp only [Int.toNat_natCast, taken]; omega
  case column_eq => simp only [Int.toNat_natCast, taken]; omega
  case between => exact ⟨before, after, split.symm, by simp only [Int.toNat_natCast, taken]⟩

/-- Every complaint about a source names a place of it, with its line and column, and the places are
in order but for a comment without end.  A source that raises an alarm is not assembled. -/
theorem complaints_have_ordered_places (source : Source) (file : Bytes) :
    (∀ diagnostics, assemble source = .error diagnostics →
      diagnostics ≠ [] ∧
      (∀ entry ∈ diagnostics.map (·.entry file), entry.IsPlaced source.bytes) ∧
      ∃ ordered last, diagnostics = ordered ++ last ∧
        ordered.Pairwise (fun first second => first.position.offset ≤ second.position.offset) ∧
        (last = [] ∨ ∃ start, last = [⟨start, .unterminatedComment⟩])) ∧
    (0 ∈ source.bytes ∨ (¬∃ chars, source.bytes = encode chars) ∨ source.failure.isSome →
      ∃ diagnostics, assemble source = .error diagnostics ∧ diagnostics ≠ []) := by
  constructor
  · intro diagnostics refused
    obtain ⟨nonempty, rfl⟩ := of_assemble_eq_error refused
    refine ⟨nonempty, ?_, exists_ordered source maxDiagnostics⟩
    intro entry present
    obtain ⟨⟨position, complaint⟩, reported, rfl⟩ := List.mem_map.mp present
    obtain ⟨before, front, rfl⟩ := exists_front_of_diagnostic (List.mem_of_mem_take reported)
    exact isPlaced_of_front front file complaint
  · intro faulty
    cases outcome : assemble source with
    | error diagnostics => exact ⟨diagnostics, rfl, (of_assemble_eq_error outcome).1⟩
    | ok program =>
        obtain ⟨noFailure, encoded, noZero⟩ := encoded_of_assemble outcome
        rcases faulty with zero | stray | failed
        · exact (noZero zero).elim
        · exact (stray encoded).elim
        · rw [noFailure] at failed
          cases failed

/-- A source with a byte order mark, a byte zero, a stray byte, an open comment and a failed read. -/
theorem complaints_about_broken_source :
    let source : Source :=
      ⟨[0xef, 0xbb, 0xbf, 0x2b, 0x0a, 0, 0x20, 0xff, 0x20, 0x28, 0x0a, 0xe2, 0x82],
        some (text "gone")⟩
    let diagnostics : List Diagnostic :=
      [⟨⟨5, 2, 1⟩, .nul⟩, ⟨⟨5, 2, 1⟩, .unexpectedChar '\x00'⟩, ⟨⟨7, 2, 3⟩, .invalidEncoding⟩,
        ⟨⟨7, 2, 3⟩, .unknownInstruction [0xff]⟩, ⟨⟨10, 2, 6⟩, .readFailure (text "gone")⟩,
        ⟨⟨11, 3, 1⟩, .invalidEncoding⟩, ⟨⟨11, 3, 1⟩, .invalidEncoding⟩,
        ⟨⟨11, 3, 1⟩, .readFailure (text "gone")⟩, ⟨⟨9, 2, 5⟩, .unterminatedComment⟩]
    assemble source = .error diagnostics ∧
      (∀ entry ∈ diagnostics.map (·.entry (text "source")), entry.IsPlaced source.bytes) ∧
      (∃ ordered last, diagnostics = ordered ++ last ∧
        ordered.Pairwise (fun first second => first.position.offset ≤ second.position.offset) ∧
        (last = [] ∨ ∃ start, last = [⟨start, .unterminatedComment⟩])) ∧
      0 ∈ source.bytes ∧
      ∃ diagnostics, assemble source = .error diagnostics ∧ diagnostics ≠ [] := by
  intro source diagnostics
  obtain ⟨ordered, refused⟩ := complaints_have_ordered_places source (text "source")
  have outcome : assemble source = .error diagnostics := by decide +kernel
  have zero : 0 ∈ source.bytes := by decide
  obtain ⟨-, placed, inOrder⟩ := ordered diagnostics outcome
  exact ⟨outcome, placed, inOrder, zero, refused (.inl zero)⟩

end BitTape
