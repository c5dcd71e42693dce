import Mathlib.Data.String.Basic
import StreamQuery.Proofs.Token.Segment

/-! # Nothing is lost between tokens

The places of tokens, taken as bytes of the text, cut it into tokens and gaps. A gap is white space and
comments, and each token stands at its place in the words that it is written with.
-/

namespace StreamQuery

open Text Lexeme

/-! ### Gaps -/

/-- White space, and comments that run to the ends of their lines. Only at the end of a text may the
line of a comment have no end. -/
inductive Skipped (atEnd : Bool) : List Char → Prop where
  | nil : Skipped atEnd []
  | space {c : Char} {cs : List Char} (isSpace : Token.isSpace c) (rest : Skipped atEnd cs) :
    Skipped atEnd (c :: cs)
  | comment {words cs : List Char} (inLine : '\n' ∉ words) (rest : Skipped atEnd cs) :
    Skipped atEnd ('#' :: (words ++ '\n' :: cs))
  | lastLine {words : List Char} (isLast : atEnd = true) (inLine : '\n' ∉ words) :
    Skipped atEnd ('#' :: words)

namespace Token

/-- What is skipped at the start of a text, and what is skipped behind the first words of a comment. -/
theorem skipped_take_gap (cs : List Char) :
    Skipped (cs.drop (gap false cs)).isEmpty (cs.take (gap false cs)) ∧
      ∀ words, '\n' ∉ words →
        Skipped (cs.drop (gap true cs)).isEmpty ('#' :: (words ++ cs.take (gap true cs))) := by
  induction cs with
  | nil =>
      refine ⟨.nil, fun words hwords => .lastLine rfl ?_⟩
      rwa [List.take_nil, List.append_nil]
  | cons c cs ih =>
      obtain ⟨houtside, hinside⟩ := ih
      constructor
      · unfold gap
        rw [if_neg Bool.false_ne_true]
        split
        · next hspace => exact .space hspace houtside
        · split
          · next hmark =>
            subst hmark
            exact hinside [] List.not_mem_nil
          · exact .nil
      · intro words hwords
        unfold gap
        rw [if_pos rfl, List.take_succ_cons, List.drop_succ_cons]
        by_cases hend : c = '\n'
        · subst hend
          exact .comment hwords houtside
        · rw [decide_eq_true hend, List.append_cons]
          exact hinside _ (by simp [hwords, Ne.symm hend])

/-- A text without tokens is skipped as a whole. -/
theorem skipped_of_segmentsOf_nil {cs last : List Char} (h : segmentsOf cs = .ok ([], last)) :
    Skipped true last := by
  rw [segmentsOf_eq] at h
  split at h
  · next hdrop =>
    cases h
    have hgap := (skipped_take_gap cs).1
    rwa [hdrop] at hgap
  · split at h
    · obtain ⟨tail, -, hcons⟩ := map_eq_ok_iff.mp h
      cases hcons
    · split at h <;> cases h

/-- The gaps between the tokens of a text are skipped, and so is the one behind the last token. -/
theorem skipped_of_segmentsOf {cs : List Char} {split : Split} (h : segmentsOf cs = .ok split) :
    (∀ segment ∈ split.1, Skipped false segment.gap) ∧ Skipped true split.2 := by
  obtain ⟨segments, last⟩ := split
  induction segments generalizing cs with
  | nil => exact ⟨nofun, skipped_of_segmentsOf_nil h⟩
  | cons segment segments ih =>
      rcases segmentsOf_cases h with heq | ⟨space, lexeme, token, rest, tail, rfl, hlength, -, hne, htail, heq⟩
      · cases heq
      cases heq
      obtain ⟨hrest, hlast⟩ := ih htail
      refine ⟨List.forall_mem_cons.mpr ⟨?_, hrest⟩, hlast⟩
      -- a token follows, so that a comment in front of it has an end
      have hgap := (skipped_take_gap (space ++ (lexeme ++ rest))).1
      rwa [hlength, List.take_left, List.drop_left,
        List.isEmpty_eq_false_iff.mpr (List.append_ne_nil_of_left_ne_nil hne rest)] at hgap

end Token

/-! ### Slices -/

/-- The piece of a text from one byte to another. -/
def slice (text : String) (start stop : Nat) : String := String.Pos.Raw.extract text ⟨start⟩ ⟨stop⟩

namespace Token

theorem byteSize_append (as bs : List Char) : byteSize (as ++ bs) = byteSize as + byteSize bs := by
  induction as with
  | nil => exact (Nat.zero_add _).symm
  | cons c as ih => rw [List.cons_append, byteSize, byteSize, ih, Nat.add_assoc]

theorem utf8Len_eq_byteSize (cs : List Char) : String.utf8Len cs = byteSize cs := by
  induction cs with
  | nil => rfl
  | cons c cs ih => rw [String.utf8Len_cons, ih, byteSize, Nat.add_comm]

theorem utf8ByteSize_ofList_eq (cs : List Char) : (String.ofList cs).utf8ByteSize = byteSize cs := by
  rw [String.utf8ByteSize_ofList, utf8Len_eq_byteSize]

theorem byteSize_pos {cs : List Char} (h : cs ≠ []) : 0 < byteSize cs := by
  obtain ⟨c, cs, rfl⟩ := List.exists_cons_of_ne_nil h
  exact Nat.lt_of_lt_of_le c.utf8Size_pos (Nat.le_add_right _ _)

theorem slice_append (before piece after : List Char) :
    slice (String.ofList (before ++ (piece ++ after))) (byteSize before)
      (byteSize before + byteSize piece) = String.ofList piece := by
  rw [slice, ← List.append_assoc, ← utf8Len_eq_byteSize, ← utf8Len_eq_byteSize]
  exact String.extract_of_valid before piece after

theorem isValid_byteSize (before after : List Char) :
    (String.Pos.Raw.mk (byteSize before)).IsValid (String.ofList (before ++ after)) := by
  rw [String.Pos.Raw.isValid_iff_exists_append]
  refine ⟨String.ofList before, String.ofList after, String.ofList_append .., ?_⟩
  rw [← utf8ByteSize_ofList_eq]
  rfl

/-! ### Places -/

variable {text : String} {offset : Nat} {segments : List Segment} {segment : Segment}
  {before last : List Char} {span : Span}

theorem le_start_of_mem_placesFrom (h : span ∈ placesFrom offset segments) : offset ≤ span.start := by
  induction segments generalizing offset with
  | nil => cases h
  | cons segment segments ih =>
      rcases List.mem_cons.mp h with rfl | h
      · exact Nat.le_add_right _ _
      · exact (Nat.le_add_right_of_le (Nat.le_add_right _ _)).trans (ih h)

/-- Each place begins where the one before it has ended, or behind. -/
theorem pairwise_placesFrom (offset : Nat) (segments : List Segment) :
    (placesFrom offset segments).Pairwise fun earlier later => earlier.stop ≤ later.start := by
  induction segments generalizing offset with
  | nil => exact .nil
  | cons segment segments ih =>
      exact List.pairwise_cons.mpr ⟨fun later hlater => le_start_of_mem_placesFrom hlater, ih _⟩

theorem placesFrom_cons (before : List Char) (segment : Segment) (segments : List Segment) :
    placesFrom (byteSize before) (segment :: segments) =
      ⟨segment.token, byteSize (before ++ segment.gap),
        byteSize (before ++ segment.gap ++ segment.lexeme)⟩ ::
      placesFrom (byteSize (before ++ segment.gap ++ segment.lexeme)) segments := by
  rw [byteSize_append (before ++ segment.gap), byteSize_append before]
  rfl

/-- The first segment behind a part of the text has its gap and its lexeme there. -/
theorem slices_cons (htext : text = String.ofList (before ++ Split.text (segment :: segments, last))) :
    slice text (byteSize before) (byteSize (before ++ segment.gap)) = String.ofList segment.gap ∧
    slice text (byteSize (before ++ segment.gap)) (byteSize (before ++ segment.gap ++ segment.lexeme)) =
      String.ofList segment.lexeme ∧
    text = String.ofList (before ++ segment.gap ++ segment.lexeme ++ Split.text (segments, last)) := by
  have hsplit : before ++ Split.text (segment :: segments, last) =
      before ++ (segment.gap ++ (segment.lexeme ++ Split.text (segments, last))) := by
    simp [Split.text, Segment.text]
  rw [hsplit] at htext
  refine ⟨?_, ?_, ?_⟩
  · rw [htext, byteSize_append, slice_append]
  · rw [htext, byteSize_append (before ++ segment.gap), ← List.append_assoc, slice_append]
  · rw [htext, List.append_assoc, List.append_assoc]

/-- At a place stands the lexeme of a segment. -/
theorem exists_segment_of_mem_placesFrom
    (htext : text = String.ofList (before ++ Split.text (segments, last)))
    (h : span ∈ placesFrom (byteSize before) segments) :
    ∃ segment ∈ segments, ∃ front behind, text = String.ofList (front ++ (segment.lexeme ++ behind)) ∧
      span = ⟨segment.token, byteSize front, byteSize (front ++ segment.lexeme)⟩ := by
  induction segments generalizing before with
  | nil => cases h
  | cons segment segments ih =>
      obtain ⟨-, -, hbehind⟩ := slices_cons htext
      rw [placesFrom_cons] at h
      rcases List.mem_cons.mp h with rfl | h
      · exact ⟨segment, List.mem_cons_self, _, _, by rw [hbehind, List.append_assoc], rfl⟩
      · obtain ⟨found, hfound, hspan⟩ := ih hbehind h
        exact ⟨found, List.mem_cons_of_mem _ hfound, hspan⟩

end Token

/-- The gap in front of each place and the gap behind the last one, from a byte of the text on. -/
def gaps (text : String) (offset : Nat) : List Span → List String
  | [] => [slice text offset text.utf8ByteSize]
  | span :: spans => slice text offset span.start :: gaps text span.stop spans

/-- Gaps and lexemes in turn, a gap first. -/
def woven : List String → List String → String
  | gap :: gaps, lexeme :: lexemes => gap ++ lexeme ++ woven gaps lexemes
  | gaps, _ => String.join gaps

namespace Token

variable {text : String} {segments : List Segment} {before last : List Char}

theorem gaps_placesFrom (htext : text = String.ofList (before ++ Split.text (segments, last))) :
    gaps text (byteSize before) (placesFrom (byteSize before) segments) =
      segments.map (fun segment => String.ofList segment.gap) ++ [String.ofList last] := by
  induction segments generalizing before with
  | nil =>
      have hslice := slice_append before last []
      rw [List.append_nil] at hslice
      subst htext
      rw [placesFrom, gaps, utf8ByteSize_ofList_eq, byteSize_append]
      exact congrArg (fun piece => [piece]) hslice
  | cons segment segments ih =>
      obtain ⟨hgap, -, hbehind⟩ := slices_cons htext
      rw [placesFrom_cons, gaps, hgap, ih hbehind]
      rfl

theorem lexemes_placesFrom (htext : text = String.ofList (before ++ Split.text (segments, last))) :
    (placesFrom (byteSize before) segments).map (fun span => slice text span.start span.stop) =
      segments.map fun segment => String.ofList segment.lexeme := by
  induction segments generalizing before with
  | nil => rfl
  | cons segment segments ih =>
      obtain ⟨-, hlexeme, hbehind⟩ := slices_cons htext
      rw [placesFrom_cons, List.map_cons, hlexeme, ih hbehind]
      rfl

theorem woven_segments (segments : List Segment) (last : List Char) :
    woven (segments.map (fun segment => String.ofList segment.gap) ++ [String.ofList last])
      (segments.map fun segment => String.ofList segment.lexeme) =
      String.ofList (Split.text (segments, last)) := by
  induction segments with
  | nil => exact String.empty_append
  | cons segment segments ih =>
      have hsplit : Split.text (segment :: segments, last) =
          segment.gap ++ segment.lexeme ++ Split.text (segments, last) := by
        simp [Split.text, Segment.text]
      rw [hsplit, String.ofList_append, String.ofList_append, ← ih]
      rfl

theorem spans_eq_ok_iff {ss : List Span} : spans text = .ok ss ↔
    ∃ split, segmentsOf text.toList = .ok split ∧ placesFrom 0 split.1 = ss := by
  unfold spans Token.segments
  cases segmentsOf text.toList with
  | error fault => exact iff_of_false nofun nofun
  | ok split => simp [Except.mapError, Except.map]

/-- The tokens of a text lie at places of their own, in their order. A place has at least one byte, begins
and ends between characters, and the token stands there as it is written, a variable perhaps with its other
sigil. The gaps are white space and comments, and with them the tokens make up the whole text. -/
theorem spans_lossless {ss : List Span} (h : spans text = .ok ss) :
    (∀ span ∈ ss, span.start < span.stop ∧ (String.Pos.Raw.mk span.start).IsValid text ∧
      (String.Pos.Raw.mk span.stop).IsValid text ∧
      (slice text span.start span.stop = span.token.text ∨
        ∃ name, span.token = .variable name ∧ slice text span.start span.stop = "$" ++ name)) ∧
    ss.Pairwise (fun earlier later => earlier.stop ≤ later.start) ∧
    (∀ gap ∈ (gaps text 0 ss).dropLast, Skipped false gap.toList) ∧
    (∀ gap ∈ (gaps text 0 ss).getLast?, Skipped true gap.toList) ∧
    woven (gaps text 0 ss) (ss.map fun span => slice text span.start span.stop) = text := by
  obtain ⟨⟨segments, last⟩, hsplit, rfl⟩ := spans_eq_ok_iff.mp h
  have htext : text = String.ofList (Split.text (segments, last)) := by
    rw [text_of_segmentsOf hsplit, String.ofList_toList]
  have hbegin : text = String.ofList ([] ++ Split.text (segments, last)) := htext
  have hgaps : gaps text 0 (placesFrom 0 segments) =
      segments.map (fun segment => String.ofList segment.gap) ++ [String.ofList last] :=
    gaps_placesFrom hbegin
  obtain ⟨hskipped, hlast⟩ := skipped_of_segmentsOf hsplit
  refine ⟨fun span hspan => ?_, pairwise_placesFrom 0 segments, ?_, ?_, ?_⟩
  · obtain ⟨segment, hsegment, front, behind, hplace, rfl⟩ :=
      exists_segment_of_mem_placesFrom hbegin hspan
    have hfaithful := faithful_of_segmentsOf hsplit segment hsegment
    have hsize := byteSize_pos hfaithful.lexeme_ne_nil
    have hslice : slice text (byteSize front) (byteSize (front ++ segment.lexeme)) =
        String.ofList segment.lexeme := by
      rw [hplace, byteSize_append, slice_append]
    refine ⟨by rw [byteSize_append]; exact Nat.lt_add_of_pos_right hsize, ?_, ?_, ?_⟩
    · rw [hplace]
      exact isValid_byteSize front _
    · rw [hplace, ← List.append_assoc]
      exact isValid_byteSize (front ++ segment.lexeme) behind
    · rw [hslice]
      rcases hfaithful.lexeme with hlexeme | ⟨name, htoken, hlexeme⟩
      · rw [hlexeme, String.ofList_toList]
        exact .inl rfl
      · rw [hlexeme]
        exact .inr ⟨name, htoken, by rw [String.ofList_cons, String.ofList_toList]; rfl⟩
  · rw [hgaps, List.dropLast_concat]
    intro gap hgap
    obtain ⟨segment, hsegment, rfl⟩ := List.mem_map.mp hgap
    rw [String.toList_ofList]
    exact hskipped segment hsegment
  · rw [hgaps, List.getLast?_concat]
    rintro gap ⟨⟩
    rwa [String.toList_ofList]
  · have hlexemes : (placesFrom 0 segments).map (fun span => slice text span.start span.stop) =
        segments.map fun segment => String.ofList segment.lexeme := lexemes_placesFrom hbegin
    rw [hgaps, hlexemes, woven_segments]
    exact htext.symm

/-- A text with a comment at each end, and characters of more than one byte. -/
def commentedText : String := "# é\n$s a \"é\"@fr . # y"

/-- The tokens of that text; a place counts bytes. -/
def commentedSpans : List Span := [⟨.variable "s", 5, 7⟩, ⟨.word "a", 8, 9⟩,
  ⟨.literal "\"é\"", 10, 14⟩, ⟨.language "@fr", 14, 17⟩, ⟨.punct ".", 18, 19⟩]

theorem spans_commentedText : spans commentedText = .ok commentedSpans := by decide +kernel

theorem spans_lossless_commentedText : spans commentedText = .ok commentedSpans ∧
    commentedSpans.Pairwise (fun earlier later => earlier.stop ≤ later.start) ∧
    (∀ gap ∈ (gaps commentedText 0 commentedSpans).dropLast, Skipped false gap.toList) ∧
    woven (gaps commentedText 0 commentedSpans)
      (commentedSpans.map fun span => slice commentedText span.start span.stop) = commentedText := by
  obtain ⟨-, hpairwise, hgaps, -, hwoven⟩ := spans_lossless spans_commentedText
  exact ⟨spans_commentedText, hpairwise, hgaps, hwoven⟩

end Token

end StreamQuery
