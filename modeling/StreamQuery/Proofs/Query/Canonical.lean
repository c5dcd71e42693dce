import StreamQuery.Proofs.Query.Constructed
import StreamQuery.Window.Combine

/-! # Canonical durations

The canonical form of a duration is read back as the same duration, wherever it is written: as a lexical
form, as the only word of a text, and in the slots of a window. So the form tells durations apart, and what
is not written in canonical form, such as a number of milliseconds, is in that form once it has been read.
-/

namespace StreamQuery

open Text

/-! ## Reading the form -/

namespace Duration

/-- The days, hours, minutes and seconds of the form add up to the seconds of the duration. -/
theorem parse_lexical (d : Duration) : parse d.lexical = .ok d := by
  obtain ⟨body, hlexical, hform⟩ := d.exists_body_lexical
  have hfields := DurationFields.LexicalForm.positive hform
  rw [← hlexical, ← d.trim_lexical] at hfields
  refine bind_eq_ok_iff.mpr ⟨_, parseFields_eq_ok_iff.mpr hfields,
    ofFields_eq_ok_iff.mpr ⟨rfl, rfl, rfl, ?_, rfl⟩⟩
  dsimp only [DurationFields.totalSeconds]
  omega

theorem lexical_injective : Function.Injective lexical := by
  intro d other heq
  have hparse := d.parse_lexical
  rw [heq, other.parse_lexical] at hparse
  exact (Except.ok.inj hparse).symm

theorem read_lexical (d : Duration) : Token.read d.lexical = .ok [.word d.lexical] :=
  Token.read_eq_ok_iff.mpr d.isLexical_word.tokens?_text

/-- What was read is written in the form that is read and written again. -/
theorem lexical_parse_of_ok {text canonical : String} (h : lexical <$> parse text = .ok canonical) :
    lexical <$> parse canonical = .ok canonical := by
  obtain ⟨d, -, rfl⟩ := map_eq_ok_iff.mp h
  exact map_eq_ok_iff.mpr ⟨d, d.parse_lexical, rfl⟩

theorem totalNanos_ofMillis (n : Nat) (h : n < countLimit) : (ofMillis n h).totalNanos = n * 1000000 := by
  dsimp only [totalNanos, ofMillis, nanosPerSecond]
  omega

end Duration

/-! ## Slots -/

/-- The literal of a duration in its canonical form. -/
def Term.IsCanonical (term : Term) : Prop := ∃ d, term = .ofDuration d

theorem Term.duration?_ofDuration (d : Duration) : (ofDuration d).duration? = some (.ok d) := by
  rw [ofDuration, duration?, Literal.value_typed, d.parse_lexical]

theorem Term.slotToken_ofDuration (prefixes : PrefixMapping) (d : Duration) :
    (ofDuration d).slotToken prefixes .duration = .word d.lexical :=
  congrArg Token.word (Literal.value_typed _ _)

theorem Term.IsCanonical.fits {term : Term} (h : term.IsCanonical) :
    QueryReader.Measure.duration.Fits term := by
  obtain ⟨d, rfl⟩ := h
  exact .ofDuration d

namespace QueryReader

/-- A number of milliseconds is read as the duration of so many of them, in its canonical form. -/
theorem millisTerm_eq_ok_iff {slot digits : String} {term : Term} : millisTerm slot digits = .ok term ↔
    ∃ n h, readCount? digits = some n ∧ term = .ofDuration (.ofMillis n h) := by
  unfold millisTerm
  cases hread : readCount? digits with
  | none => simp
  | some n => simp [lt_of_readCount? hread, eq_comm]

end QueryReader

namespace Window

variable {window : Window} {prefixes : PrefixMapping} {term : Term}

theorem measure_of_kind_ne (h : window.kind ≠ .physical) : window.frame.measure = .duration := by
  unfold kind at h
  cases hframe : window.frame with
  | logical => rfl
  | past => rfl
  | physical =>
      rw [hframe] at h
      exact absurd rfl h

/-- Each slot of a window is one of the tokens of its declaration. -/
theorem slotToken_mem_tokens (prefixes : PrefixMapping)
    (h : term ∈ window.frame.terms ++ window.step.toList) :
    term.slotToken prefixes window.frame.measure ∈ window.tokens prefixes := by
  have hmem : term.slotToken prefixes window.frame.measure ∈
      window.frame.tokens prefixes ++ window.stepTokens prefixes := by
    rcases List.mem_append.mp h with hframe | hstep
    · refine List.mem_append_left _ ?_
      cases hkind : window.frame with
      | logical range =>
          rw [hkind] at hframe
          simp [Frame.tokens, Frame.measure, List.mem_singleton.mp hframe]
      | past start stop =>
          rw [hkind] at hframe
          rcases List.mem_pair.mp hframe with rfl | rfl <;> simp [Frame.tokens, Frame.measure]
      | physical items =>
          rw [hkind] at hframe
          simp [Frame.tokens, Frame.measure, List.mem_singleton.mp hframe]
    · exact List.mem_append_right _ (List.mem_flatMap.mpr ⟨term, hstep, by simp⟩)
  have hwithin : window.frame.tokens prefixes ++ window.stepTokens prefixes <:+: window.tokens prefixes :=
    ⟨[.word "NAMED", .word "WINDOW", window.id.nameToken prefixes, .word "ON",
      window.stream.nameToken prefixes, .punct "["], [.punct "]"], by simp [tokens]⟩
  exact hwithin.subset hmem

/-- The declaration of a window with canonical durations holds each of them as a word, and is read as the
same window. -/
theorem read_clause (hprefixes : prefixes.Declared) (hid : window.id.IsName) (hstream : window.stream.IsName)
    (htimed : window.kind ≠ .physical)
    (hslots : ∀ term ∈ window.frame.terms ++ window.step.toList, term.IsCanonical) :
    Token.read (window.clause prefixes) = .ok (.word "FROM" :: window.tokens prefixes) ∧
      QueryReader.readFrom prefixes (window.tokens prefixes) = .ok (.inr window, []) ∧
      ∀ d, .ofDuration d ∈ window.frame.terms ++ window.step.toList →
        .word d.lexical ∈ window.tokens prefixes := by
  have hmeasure := measure_of_kind_ne htimed
  have hfits : window.Fits prefixes := by
    refine ⟨hid.names hprefixes, hstream.names hprefixes, fun term hterm => ?_⟩
    rw [hmeasure]
    exact (hslots term hterm).fits
  have hfrom := QueryReader.readFrom_of_fits hfits []
  rw [List.append_nil] at hfrom
  refine ⟨Token.read_eq_ok_iff.mpr (reads_clause hfits).tokens?, hfrom, fun d hd => ?_⟩
  have hmem := slotToken_mem_tokens prefixes hd
  rwa [hmeasure, Term.slotToken_ofDuration] at hmem

end Window

namespace Duration

/-- The canonical form of a duration is read as the duration, and as a single word; so no two durations
have the same form, and writing what was read a second time changes nothing. A number of milliseconds is
read in the form of the duration that it counts, and the smallest step of a dialect is in that form. In the
declaration of a window, durations stand as words in their canonical form, and the declaration is read as
the window with these durations. -/
theorem lexical_canonical :
    (∀ d : Duration, parse d.lexical = .ok d ∧ Token.read d.lexical = .ok [.word d.lexical]) ∧
    Function.Injective lexical ∧
    (∀ text canonical, lexical <$> parse text = .ok canonical →
      lexical <$> parse canonical = .ok canonical) ∧
    (∀ slot digits term, QueryReader.millisTerm slot digits = .ok term →
      ∃ n d, readCount? digits = some n ∧ d.totalNanos = n * 1000000 ∧ term = .ofDuration d) ∧
    (∀ minStep, (Scalar.duration.smallestStep minStep).IsCanonical) ∧
    ∀ (prefixes : PrefixMapping) (window : Window), prefixes.Declared → window.id.IsName →
      window.stream.IsName → window.kind ≠ .physical →
      (∀ term ∈ window.frame.terms ++ window.step.toList, term.IsCanonical) →
      ∃ ts, Token.read (window.clause prefixes) = .ok (.word "FROM" :: ts) ∧
        QueryReader.readFrom prefixes ts = .ok (.inr window, []) ∧
        ∀ d, .ofDuration d ∈ window.frame.terms ++ window.step.toList →
          .word d.lexical ∈ ts ∧ (Term.ofDuration d).duration? = some (.ok d) := by
  refine ⟨fun d => ⟨d.parse_lexical, d.read_lexical⟩, lexical_injective, fun _ _ => lexical_parse_of_ok,
    fun slot digits term h => ?_, fun minStep => ⟨minStep, rfl⟩,
    fun prefixes window hprefixes hid hstream htimed hslots => ?_⟩
  · obtain ⟨n, hn, hread, rfl⟩ := QueryReader.millisTerm_eq_ok_iff.mp h
    exact ⟨n, ofMillis n hn, hread, totalNanos_ofMillis n hn, rfl⟩
  · obtain ⟨htext, hfrom, hwords⟩ := Window.read_clause hprefixes hid hstream htimed hslots
    exact ⟨_, htext, hfrom, fun d hd => ⟨hwords d hd, Term.duration?_ofDuration d⟩⟩

/-- A window over the last minute and a half without the last quarter of a second. -/
def recentPast : Window where
  id := .iri ⟨"http://a/past", by decide⟩
  stream := .iri ⟨"http://a/gauge", by decide⟩
  frame := .past (.literal (.typed "PT1M30S" "http://www.w3.org/2001/XMLSchema#duration"))
    (.literal (.typed "PT0.25S" "http://www.w3.org/2001/XMLSchema#duration"))
  step := none

theorem lexical_canonical_recentPast :
    lexical <$> parse "PT0090.0S" = .ok "PT1M30S" ∧ lexical <$> parse "PT1M30S" = .ok "PT1M30S" ∧
    (∃ n d, readCount? "250" = some n ∧ d.totalNanos = n * 1000000 ∧
      .literal (.typed "PT0.25S" "http://www.w3.org/2001/XMLSchema#duration") = Term.ofDuration d) ∧
    recentPast.clause SortedMap.empty =
      "FROM NAMED WINDOW <http://a/past> ON <http://a/gauge> [FROM NOW-PT1M30S TO NOW-PT0.25S]" ∧
    ∃ ts, Token.read (recentPast.clause SortedMap.empty) = .ok (.word "FROM" :: ts) ∧
      QueryReader.readFrom SortedMap.empty ts = .ok (.inr recentPast, []) := by
  obtain ⟨-, -, hsame, hmillis, -, hwindow⟩ := lexical_canonical
  have hform : lexical <$> parse "PT0090.0S" = .ok "PT1M30S" := by decide +kernel
  have hslots : ∀ term ∈ recentPast.frame.terms ++ recentPast.step.toList, term.IsCanonical := by
    intro term hterm
    rcases List.mem_pair.mp hterm with rfl | rfl
    · exact ⟨ofMillis 90000 (by decide), by decide +kernel⟩
    · exact ⟨ofMillis 250 (by decide), by decide +kernel⟩
  refine ⟨hform, hsame _ _ hform, hmillis "RANGE" "250" _ (by decide +kernel), by decide +kernel, ?_⟩
  obtain ⟨ts, htext, hfrom, -⟩ := hwindow SortedMap.empty recentPast ⟨nofun, nofun, nofun⟩ (.iri _) (.iri _)
    (by decide) hslots
  exact ⟨ts, htext, hfrom⟩

end Duration

end StreamQuery
