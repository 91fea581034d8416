import Mathlib.Data.List.DropRight
import BitTape.Assembly.Diagnostic
import BitTape.Proofs.Encoding

/-!
# Positions in any text

Between two glyphs a byte string can be cut without changing the glyphs on either side, whether they
are characters or stray bytes.  So the position of a glyph, which reading counts glyph by glyph, can
be told from the bytes before it: their number, their line feeds, and the glyphs of their last line.
-/

namespace BitTape

/-! ## Glyphs of a part of a text -/

theorem glyphs_of_stray {byte : UInt8} {rest : Bytes}
    (noChar : leadingChar? (byte :: rest) = none) :
    ∃ unfinished, glyphs (byte :: rest) = .stray byte unfinished :: glyphs rest := by
  refine ⟨isUnfinished (byte :: rest.take 3), ?_⟩
  rw [glyphs, pieces_cons, Glyph.first, noChar]
  rfl

theorem leadingChar?_of_append {front back : Bytes} (noChar : leadingChar? (front ++ back) = none) :
    leadingChar? front = none := by
  cases found : leadingChar? front with
  | none => rfl
  | some scalar =>
      rw [eq_of_leadingChar?_eq_some found, List.append_assoc, leadingChar?_encode] at noChar
      cases noChar

theorem of_glyphs_eq_cons {bytes : Bytes} {glyph : Glyph} {rest : List Glyph}
    (found : glyphs bytes = glyph :: rest) :
    ∃ behind, bytes = glyph.bytes ++ behind ∧ glyphs behind = rest ∧
      ∀ byte unfinished, glyph = .stray byte unfinished → leadingChar? bytes = none := by
  cases bytes with
  | nil => cases found
  | cons byte tail =>
      cases leading : leadingChar? (byte :: tail) with
      | none =>
          obtain ⟨unfinished, split⟩ := glyphs_of_stray leading
          obtain ⟨rfl, rfl⟩ := List.cons.inj (found.symm.trans split)
          exact ⟨tail, rfl, rfl, fun _ _ _ => rfl⟩
      | some scalar =>
          have bytes_eq := eq_of_leadingChar?_eq_some leading
          rw [bytes_eq, glyphs_utf8EncodeChar_append] at found
          obtain ⟨rfl, rfl⟩ := List.cons.inj found
          refine ⟨_, bytes_eq, rfl, ?_⟩
          rintro _ _ ⟨⟩

section Parts

variable {bytes : Bytes} {front middle back : List Glyph}

theorem glyphs_back (found : glyphs bytes = front ++ back) :
    glyphs (back.flatMap Glyph.bytes) = back := by
  induction front generalizing bytes with
  | nil =>
      rw [List.nil_append] at found
      rw [← found, flatMap_bytes_glyphs]
  | cons glyph front ih =>
      obtain ⟨behind, -, behind_eq, -⟩ := of_glyphs_eq_cons found
      exact ih behind_eq

/-- A text that is cut between two glyphs has as many glyphs as before the cut. -/
theorem length_glyphs_front (found : glyphs bytes = front ++ back) :
    (glyphs (front.flatMap Glyph.bytes)).length = front.length := by
  induction front generalizing bytes with
  | nil => rfl
  | cons glyph front ih =>
      obtain ⟨behind, bytes_eq, behind_eq, noChar⟩ := of_glyphs_eq_cons found
      have length_eq := ih behind_eq
      have behind_bytes : behind = front.flatMap Glyph.bytes ++ back.flatMap Glyph.bytes := by
        rw [← flatMap_bytes_glyphs behind, behind_eq]
        exact List.flatMap_append
      rw [List.flatMap_cons, List.length_cons, ← length_eq]
      cases glyph with
      | char scalar => rw [Glyph.bytes, glyphs_utf8EncodeChar_append, List.length_cons]
      | stray byte unfinished =>
          have noChar := noChar byte unfinished rfl
          rw [bytes_eq, behind_bytes, ← List.append_assoc] at noChar
          have noChar : leadingChar? (byte :: front.flatMap Glyph.bytes) = none :=
            leadingChar?_of_append noChar
          obtain ⟨_, split⟩ := glyphs_of_stray noChar
          rw [Glyph.bytes, List.singleton_append, split, List.length_cons]

theorem length_glyphs_middle (found : glyphs bytes = front ++ (middle ++ back)) :
    (glyphs (middle.flatMap Glyph.bytes)).length = middle.length :=
  length_glyphs_front (glyphs_back found)

end Parts

/-! ## Plain characters -/

section Plain

variable {char plain : Char} (small : plain.toNat < 128)
include small

theorem leadingChar?_ascii (rest : Bytes) : leadingChar? (ascii plain :: rest) = some plain := by
  have leading := leadingChar?_encode plain rest
  rwa [utf8EncodeChar_of_small small] at leading

/-- The byte of a plain character is in no other encoding: it could only be the first byte. -/
theorem mem_utf8EncodeChar_iff : ascii plain ∈ String.utf8EncodeChar char ↔ char = plain := by
  constructor
  · intro present
    have isFirst : (ascii plain).IsUTF8FirstByte := by
      have first := UInt8.isUTF8FirstByte_getElem_zero_utf8EncodeChar (c := plain)
      simpa only [utf8EncodeChar_of_small small, List.getElem_cons_zero] using first
    obtain ⟨place, inside, found⟩ := List.mem_iff_getElem.mp present
    obtain rfl : place = 0 := by
      rw [← @UInt8.isUTF8FirstByte_getElem_utf8EncodeChar char place inside, found]
      exact isFirst
    have leading := leadingChar?_encode char []
    rw [List.append_nil, ← List.cons_head_tail String.utf8EncodeChar_ne_nil,
      List.head_eq_getElem, found, leadingChar?_ascii small] at leading
    exact (Option.some.inj leading).symm
  · rintro rfl
    rw [utf8EncodeChar_of_small small]
    exact List.mem_singleton_self _

theorem mem_bytes_iff {bytes : Bytes} {glyph : Glyph} (present : glyph ∈ glyphs bytes) :
    ascii plain ∈ glyph.bytes ↔ glyph = .char plain := by
  cases glyph with
  | char scalar => rw [Glyph.bytes, mem_utf8EncodeChar_iff small, Glyph.char.injEq]
  | stray byte unfinished =>
      refine iff_of_false ?_ (by rintro ⟨⟩)
      intro isByte
      rw [Glyph.bytes, List.mem_singleton] at isByte
      subst isByte
      obtain ⟨front, back, split⟩ := List.append_of_mem present
      obtain ⟨behind, bytes_eq, -, noChar⟩ := of_glyphs_eq_cons (glyphs_back split)
      have noChar := noChar _ _ rfl
      rw [bytes_eq, Glyph.bytes, List.singleton_append, leadingChar?_ascii small] at noChar
      cases noChar

end Plain

/-! ## Positions behind glyphs -/

/-- The byte that ends a line. -/
def lineFeed : UInt8 :=
  ascii '\n'

theorem lineFeed_small : '\n'.toNat < 128 := by
  decide

/-- What follows the last line feed of a text, or all of it. -/
def lastLine (bytes : Bytes) : Bytes :=
  bytes.rtakeWhile (· ≠ lineFeed)

/-- The glyphs behind the last line feed. -/
def lastGlyphs (before : List Glyph) : List Glyph :=
  before.rtakeWhile (· ≠ .char '\n')

theorem lastLine_snoc_lineFeed (front : Bytes) : lastLine (front ++ [lineFeed]) = [] :=
  List.rtakeWhile_concat_neg _ front lineFeed (by simp)

theorem lastLine_append {back : Bytes} (unbroken : lineFeed ∉ back) (front : Bytes) :
    lastLine (front ++ back) = lastLine front ++ back := by
  induction back using List.reverseRecOn with
  | nil => rw [List.append_nil, List.append_nil]
  | append_singleton back byte ih =>
      rw [List.mem_append, not_or, List.mem_singleton] at unbroken
      rw [← List.append_assoc, ← List.append_assoc, ← ih unbroken.1]
      exact List.rtakeWhile_concat_pos _ _ _ (by simpa using Ne.symm unbroken.2)

theorem lastGlyphs_snoc (before : List Glyph) (glyph : Glyph) :
    lastGlyphs (before ++ [glyph]) =
      if glyph = .char '\n' then [] else lastGlyphs before ++ [glyph] := by
  rw [lastGlyphs, List.rtakeWhile_concat, lastGlyphs]
  by_cases feeds : glyph = .char '\n' <;> simp [feeds]

namespace Position

/-- The position behind glyphs at the start of a source, as reading counts it. -/
def behindGlyphs (before : List Glyph) : Position :=
  before.foldl after .start

theorem behindGlyphs_snoc (before : List Glyph) (glyph : Glyph) :
    behindGlyphs (before ++ [glyph]) = (behindGlyphs before).after glyph := by
  rw [behindGlyphs, List.foldl_append]
  rfl

theorem behindGlyphs_eq (before : List Glyph) :
    behindGlyphs before =
      { offset := (before.flatMap Glyph.bytes).length
        line := before.count (.char '\n') + 1
        column := (lastGlyphs before).length + 1 } := by
  induction before using List.reverseRecOn with
  | nil => rfl
  | append_singleton before glyph ih =>
      rw [behindGlyphs_snoc, ih, after, lastGlyphs_snoc]
      by_cases feeds : glyph = .char '\n'
      · subst feeds
        simp [Glyph.size]
      · simp [feeds, Glyph.size]

theorem offset_behindGlyphs_le {before later : List Glyph} (front : before <+: later) :
    (behindGlyphs before).offset ≤ (behindGlyphs later).offset := by
  obtain ⟨rest, rfl⟩ := front
  rw [behindGlyphs_eq, behindGlyphs_eq, List.flatMap_append, List.length_append]
  exact Nat.le_add_right _ _

end Position

section Lines

variable {bytes : Bytes} {before after : List Glyph}

theorem count_lineFeed_bytes {glyph : Glyph} (present : glyph ∈ glyphs bytes) :
    glyph.bytes.count lineFeed = if glyph = .char '\n' then 1 else 0 := by
  have holds := mem_bytes_iff lineFeed_small present
  split
  · rename_i feeds
    rw [feeds]
    decide
  · rename_i other
    exact List.count_eq_zero.mpr fun isByte => other (holds.mp isByte)

/-- Glyphs of a text have as many line feeds as their bytes. -/
theorem count_lineFeed (present : ∀ glyph ∈ before, glyph ∈ glyphs bytes) :
    (before.flatMap Glyph.bytes).count lineFeed = before.count (.char '\n') := by
  induction before with
  | nil => rfl
  | cons glyph rest ih =>
      have restPresent : ∀ other ∈ rest, other ∈ glyphs bytes :=
        fun other isRest => present other (List.mem_cons_of_mem _ isRest)
      rw [List.flatMap_cons, List.count_append, ih restPresent, List.count_cons,
        count_lineFeed_bytes (present glyph List.mem_cons_self), Nat.add_comm]
      simp only [beq_iff_eq]

/-- The last line of a text has the bytes of the glyphs behind the last line feed. -/
theorem lastLine_flatMap (present : ∀ glyph ∈ before, glyph ∈ glyphs bytes) :
    lastLine (before.flatMap Glyph.bytes) = (lastGlyphs before).flatMap Glyph.bytes := by
  induction before using List.reverseRecOn with
  | nil => rfl
  | append_singleton before glyph ih =>
      have frontPresent : ∀ other ∈ before, other ∈ glyphs bytes :=
        fun other isFront => present other (List.mem_append_left _ isFront)
      have holds := mem_bytes_iff lineFeed_small
        (present glyph (List.mem_append_right _ List.mem_cons_self))
      rw [List.flatMap_append, List.flatMap_singleton, lastGlyphs_snoc]
      split
      · rename_i feeds
        subst feeds
        exact lastLine_snoc_lineFeed _
      · rename_i other
        rw [lastLine_append (fun isByte => other (holds.mp isByte)), ih frontPresent,
          List.flatMap_append, List.flatMap_singleton]

/-- Where a glyph stands can be told from the bytes before it. -/
theorem behindGlyphs_eq_of_glyphs (split : glyphs bytes = before ++ after) :
    Position.behindGlyphs before =
      { offset := (before.flatMap Glyph.bytes).length
        line := (before.flatMap Glyph.bytes).count lineFeed + 1
        column := (glyphs (lastLine (before.flatMap Glyph.bytes))).length + 1 } := by
  have present : ∀ glyph ∈ before, glyph ∈ glyphs bytes := by
    intro glyph isFront
    rw [split]
    exact List.mem_append_left _ isFront
  have cut : glyphs bytes =
      before.rdropWhile (· ≠ .char '\n') ++ (lastGlyphs before ++ after) := by
    rw [split, ← List.append_assoc, lastGlyphs, List.rdropWhile_append_rtakeWhile]
  rw [Position.behindGlyphs_eq, count_lineFeed present, lastLine_flatMap present,
    length_glyphs_middle cut]

end Lines

end BitTape
