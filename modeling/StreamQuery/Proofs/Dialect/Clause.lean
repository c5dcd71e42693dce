import StreamQuery.Proofs.Dialect.Profile
import StreamQuery.Proofs.Query.Window

/-! # The tokens of stream clauses

What the dialects write for a window is split into tokens as intended: an amount and its unit are two
tokens, whether or not there is a space in between, and the hyphen of `NOW-` belongs to the amount
behind it.
-/

namespace StreamQuery

open Text Lexeme Token Projecting

/-! ### Amounts and units -/

/-- A unit whose symbol is a word that cannot be taken for the exponent of the number before it. -/
def TimeUnit.IsWord (unit : TimeUnit) : Prop :=
  unit.symbol ≠ "" ∧ (∀ c ∈ unit.symbol.toList, c.isAlpha) ∧
    unit.symbol.toList.head? ≠ some 'e' ∧ unit.symbol.toList.head? ≠ some 'E'

instance : DecidablePred TimeUnit.IsWord := fun _ => inferInstanceAs (Decidable (_ ∧ _ ∧ _ ∧ _))

theorem Dialect.isWord_of_mem_units (dialect : Dialect) :
    ∀ unit ∈ dialect.capabilities.units, unit.IsWord := by
  cases dialect <;> decide +kernel

theorem numberLength?_negative (n : Nat) :
    numberLength? ('-' :: decimal n) = some ('-' :: decimal n).length := by
  have hdigits : ∀ c ∈ decimal n, c.isDigit := fun c hc => isDigit_of_mem_decimal hc
  have hne : decimal n ≠ [] := Nat.toDigits_ne_nil
  refine numberLength?_eq_some_iff.mpr
    ⟨1, (decimal n).length, 0, 0, rfl, count_self hdigits, ?_, ?_, ?_, ?_⟩
  · exact fun hlength => hne (List.eq_nil_of_length_eq_zero hlength)
  · rw [Nat.add_comm, List.drop_succ_cons, List.drop_length]
    rfl
  · rw [Nat.add_comm 1, Nat.add_zero, List.drop_succ_cons, List.drop_length]
    rfl
  · rw [List.length_cons]
    omega

/-- No symbol continues the number in front of it. -/
theorem TimeUnit.IsWord.stops {unit : TimeUnit} (h : unit.IsWord) (rest : List Char) :
    Stops isNumberPart (unit.symbol.toList ++ rest) := by
  obtain ⟨hne, halpha, hlower, hupper⟩ := h
  obtain ⟨first, others, hsymbol⟩ := List.exists_cons_of_ne_nil (mt String.toList_eq_nil_iff.mp hne)
  have hcode := isAlpha_iff_toNat.mp (halpha first (hsymbol ▸ List.mem_cons_self))
  rw [hsymbol, List.head?_cons] at hlower hupper
  have hletter : first ≠ 'e' ∧ first ≠ 'E' := ⟨mt (congrArg some) hlower, mt (congrArg some) hupper⟩
  have hdigit : first.isDigit = false := by
    rw [← Bool.not_eq_true]
    intro hdigit
    have hrange : 48 ≤ first.toNat ∧ first.toNat ≤ 57 := Char.isDigit_iff_toNat.mp hdigit
    omega
  have hdot : first ≠ '.' := by
    rintro rfl
    revert hcode
    decide
  refine stops_of_head? (by rw [hsymbol]; rfl) ?_
  simp [isNumberPart, hdigit, hdot, hletter]

namespace Token

/-- The token of a whole number. -/
def count (n : Nat) : Token := .number (String.ofList (decimal n))

/-- The token of a whole number behind a hyphen. -/
def negative (n : Nat) : Token := .number (String.ofList ('-' :: decimal n))

theorem text_count (n : Nat) : (count n).text.toList = decimal n := String.toList_ofList

theorem text_negative (n : Nat) : (negative n).text.toList = '-' :: decimal n :=
  String.toList_ofList

theorem lexical_count (n : Nat) : (count n).Lexical := QueryReader.lexical_decimal n

theorem lexical_negative (n : Nat) : (negative n).Lexical := .number (numberLength?_negative n)

namespace Reads

theorem count (n : Nat) : Reads (decimal n) [.count n] := by
  rw [← text_count]
  exact .token (lexical_count n)

theorem unit {unit : TimeUnit} (h : unit.IsWord) :
    Reads unit.symbol.toList [.word unit.symbol] :=
  .token (t := .word unit.symbol) (.of_isAlpha h.1 h.2.1)

/-- An amount directly in front of its unit. -/
theorem amount (n : Nat) {unit : TimeUnit} (h : unit.IsWord) :
    Reads (decimal n ++ unit.symbol.toList) [.count n, .word unit.symbol] := by
  intro rest hrest
  -- the symbol ends the number, whatever stands behind it
  have hfirst : first? ((Token.count n).text.toList ++ (unit.symbol.toList ++ rest)) =
      some (.count n, (Token.count n).text.toList.length) := by
    rw [text_count]
    exact first?_number (QueryReader.numberLength?_decimal n) (h.stops rest)
  rw [List.append_assoc, ← text_count n, tokens?_lexeme hfirst (lexical_count n).text_ne_nil,
    Reads.unit h rest hrest, Option.map_map]
  rfl

/-- An amount behind a hyphen, which is read as its sign. -/
theorem behindNow (n : Nat) : Reads ("NOW-".toList ++ decimal n) [.word "NOW", .negative n] := by
  intro rest hrest
  have hbare : IsBareWord "NOW".toList := ⟨by decide, by decide⟩
  -- with a colon behind it, `NOW-` would be the beginning of a prefixed name
  have hcolon : ((('-' :: decimal n) ++ rest).dropWhile isLabelChar).head? ≠ some ':' := by
    refine no_colon_append (fun hmem => ?_) hrest.boundary.no_colon
    rcases List.mem_cons.mp hmem with hmem | hmem
    · cases hmem
    · exact absurd (isDigit_of_mem_decimal hmem) (by decide)
  have hfirst : first? ((Token.word "NOW").text.toList ++ (('-' :: decimal n) ++ rest)) =
      some (.word "NOW", (Token.word "NOW").text.toList.length) :=
    first?_bareWord hbare (stops_of_head? rfl (by decide)) (stops_of_head? rfl (by decide)) hcolon
  have htext : "NOW-".toList ++ decimal n ++ rest =
      (Token.word "NOW").text.toList ++ (('-' :: decimal n) ++ rest) := rfl
  have hnumber := Reads.token (lexical_negative n) rest hrest
  rw [text_negative] at hnumber
  rw [htext, tokens?_lexeme hfirst (by decide), hnumber, Option.map_map]
  rfl

end Reads

end Token

/-! ### Durations and counts -/

/-- The unit that a duration is written in: the largest one that divides it, and for no time at all
the second or else the first unit. -/
def Duration.unit? (d : Duration) (units : List TimeUnit) : Option TimeUnit :=
  if d.seconds = 0 ∧ d.nanos = 0 then (units.find? (·.nanos = nanosPerSecond)).or units.head?
  else units.reverse.find? (d.totalNanos % ·.nanos = 0)

theorem Duration.inUnits?_eq (d : Duration) (units : List TimeUnit) (separator : String) :
    d.inUnits? units separator = (d.unit? units).map fun unit =>
      String.ofList (decimal (d.totalNanos / unit.nanos)) ++ separator ++ unit.symbol := by
  unfold inUnits? unit?
  split
  · next hzero =>
    have hnone : ∀ n, decimal (d.totalNanos / n) = decimal 0 := fun n => by
      rw [totalNanos, hzero.1, hzero.2, Nat.zero_mul, Nat.zero_add, Nat.zero_div]
    simp only [hnone]
    rfl
  · rfl

theorem Duration.mem_of_unit? {d : Duration} {units : List TimeUnit} {unit : TimeUnit}
    (h : d.unit? units = some unit) : unit ∈ units := by
  unfold unit? at h
  split at h
  · rcases Option.or_eq_some_iff.mp h with h | ⟨-, h⟩
    · exact List.mem_of_find?_eq_some h
    · exact List.mem_of_mem_head? h
  · exact List.mem_reverse.mp (List.mem_of_find?_eq_some h)

namespace Term

/-- The token of a term in full. -/
def token : Term → Token
  | .iri i => .iri i.text
  | .literal l => .literal l.text
  | .variable v => .variable v.name

theorem text_token (term : Term) : term.token.text = term.text := by
  cases term <;> rfl

/-- A duration as so many of a unit of a dialect. -/
def measured? (dialect : Dialect) (term : Term) : Option (Nat × TimeUnit) :=
  match term.duration? with
  | some (.ok d) =>
    (d.unit? dialect.capabilities.units).map fun unit => (d.totalNanos / unit.nanos, unit)
  | _ => none

/-- The tokens of a duration in the units of a dialect; a variable stands for itself. -/
def durationTokens (dialect : Dialect) (term : Term) : List Token :=
  match term.measured? dialect with
  | some (n, unit) => [.count n, .word unit.symbol]
  | none => [term.token]

/-- The tokens of a point in the past. -/
def pastTokens (dialect : Dialect) (term : Term) : List Token :=
  match term.measured? dialect with
  | some (n, unit) => [.word "NOW", .negative n, .word unit.symbol]
  | none => [.word "NOW", .punct "-", term.token]

/-- The token of a count; a variable stands for itself. -/
def countToken (term : Term) : Token := (term.count?.map Token.count).getD term.token

end Term

namespace Window

variable {dialect : Dialect} {window : Window} {field text : String} {term : Term}

/-- A duration is written as a variable, or as so many of a unit of the dialect. -/
theorem durationText_cases (h : window.durationText dialect field term = .ok text) :
    (term.isVariable ∧ term.measured? dialect = none ∧ text = term.token.text) ∨
      ∃ n unit, term.measured? dialect = some (n, unit) ∧ unit.IsWord ∧
        text = String.ofList (decimal n) ++ dialect.capabilities.separator ++ unit.symbol := by
  unfold durationText at h
  split at h
  · next hvariable =>
    cases h
    refine .inl ⟨hvariable, ?_, (Term.text_token term).symm⟩
    cases term with
    | «variable» v => rfl
    | _ => cases hvariable
  · split at h
    · cases h
    · cases h
    · next d hd =>
      rw [Duration.inUnits?_eq] at h
      cases hunit : d.unit? dialect.capabilities.units with
      | none =>
          rw [hunit] at h
          cases h
      | some unit =>
          rw [hunit] at h
          cases h
          refine .inr ⟨_, unit, ?_, dialect.isWord_of_mem_units unit (Duration.mem_of_unit? hunit), rfl⟩
          rw [Term.measured?, hd]
          dsimp only
          rw [hunit]
          rfl

theorem reads_durationText (h : window.durationText dialect field term = .ok text)
    (hvariable : term.isVariable → term.token.Lexical) :
    Reads text.toList (term.durationTokens dialect) := by
  rcases durationText_cases h with ⟨hterm, hnone, rfl⟩ | ⟨n, unit, hmeasured, hword, rfl⟩
  · rw [Term.durationTokens, hnone]
    exact .token (hvariable hterm)
  · rw [Term.durationTokens, hmeasured, String.toList_append, String.toList_append,
      String.toList_ofList, List.append_assoc]
    have hspaced := (Reads.count n).append (.unit hword)
    cases dialect with
    | sparqlStream => exact hspaced
    | _ => exact .amount n hword

theorem reads_pastText (h : window.durationText .sparqlStream field term = .ok text)
    (hvariable : term.isVariable → term.token.Lexical) :
    Reads ("NOW-".toList ++ text.toList) (term.pastTokens .sparqlStream) := by
  rcases durationText_cases h with ⟨hterm, hnone, rfl⟩ | ⟨n, unit, hmeasured, hword, rfl⟩
  · rw [Term.pastTokens, hnone]
    refine .past (hvariable hterm) ?_
    cases term with
    | «variable» v => rfl
    | _ => cases hterm
  · have htext : (String.ofList (decimal n) ++ Dialect.sparqlStream.capabilities.separator ++
        unit.symbol).toList = decimal n ++ ' ' :: unit.symbol.toList := by
      rw [String.toList_append, String.toList_append, String.toList_ofList, List.append_assoc]
      rfl
    rw [Term.pastTokens, hmeasured, htext, ← List.append_assoc]
    exact (Reads.behindNow n).append (.unit hword)

theorem reads_countText (h : window.countText field term = .ok text)
    (hvariable : term.isVariable → term.token.Lexical) : Reads text.toList [term.countToken] := by
  unfold countText at h
  split at h
  · next hterm =>
    cases h
    have htoken : term.countToken = term.token := by
      cases term with
      | «variable» v => rfl
      | _ => cases hterm
    rw [htoken, ← Term.text_token]
    exact .token (hvariable hterm)
  · split at h
    · next n hn =>
      cases h
      rw [String.toList_ofList, Term.countToken, hn]
      exact .count n
    · cases h

end Window

/-! ### Clauses -/

/-- A window whose stream and variables are names in the text of a query. -/
structure Window.Utterable (window : Window) : Prop where
  stream : window.stream.token.Lexical
  slots : ∀ term ∈ window.frame.terms ++ window.step.toList, term.isVariable → term.token.Lexical

namespace Window

variable {dialect : Dialect} {strict : Bool} {window : Window} {frame : String} {ts : List Token}

/-- The tokens of a stream with a frame. -/
def streamTokens (window : Window) (frame : List Token) : List Token :=
  .word "STREAM" :: window.stream.token :: .punct "[" :: frame ++ [.punct "]"]

theorem reads_stream (h : window.stream.token.Lexical) (hframe : Reads frame.toList ts) :
    Reads ("STREAM " ++ window.stream.text ++ " [" ++ frame ++ "]").toList
      (window.streamTokens ts) := by
  have hstream : Reads window.stream.text.toList [window.stream.token] := by
    rw [← Term.text_token]
    exact .token h
  have hclause := Reads.keyword "STREAM" (by decide) (hstream.append hframe.bracketed)
  simpa [streamTokens, String.toList_append] using hclause

theorem reads_fromStream (h : window.stream.token.Lexical) (hframe : Reads frame.toList ts) :
    Reads ("FROM STREAM " ++ window.stream.text ++ " [" ++ frame ++ "]").toList
      (.word "FROM" :: window.streamTokens ts) := by
  have hclause := Reads.keyword "FROM" (by decide) (reads_stream h hframe)
  simpa [String.toList_append] using hclause

theorem ensures_itemsFrame {items : Term} (hvariable : items.isVariable → items.token.Lexical) :
    Ensures (window.itemsFrame dialect strict items) fun text =>
      Reads text.toList [.word "TRIPLES", items.countToken] := by
  have hcount : Ensures (do return "TRIPLES " ++ (← liftM (window.countText "item count" items)))
      fun text => Reads text.toList [.word "TRIPLES", items.countToken] := by
    refine (Ensures.liftM _).bind fun text htext => .pure ?_
    have hframe := Reads.keyword "TRIPLES" (by decide) (reads_countText htext hvariable)
    simpa [String.toList_append] using hframe
  unfold itemsFrame
  dsimp only
  split
  · exact .bind_right fun _ => hcount
  · exact hcount

end Window

namespace CSparql

variable {window : Window} {strict : Bool}

/-- The tokens of the frame and the step of a window. -/
def frameTokens (window : Window) : List Token :=
  match window.frame with
  | .logical range => .word "RANGE" :: range.durationTokens .cSparql ++
      .word "STEP" :: (window.step.getD (.ofDuration .millisecond)).durationTokens .cSparql
  | .physical items => [.word "TRIPLES", items.countToken]
  | .past _ _ => []

/-- The tokens of the clause of a window. -/
def clauseTokens (window : Window) : List Token :=
  .word "FROM" :: window.streamTokens (frameTokens window)

theorem reads_timeFrame {range step : Term} {first second : String} (h : window.Utterable)
    (hframe : window.frame = .logical range)
    (hstep : step = window.step.getD (.ofDuration .millisecond))
    (hfirst : window.durationText .cSparql "range" range = .ok first)
    (hsecond : window.durationText .cSparql "step" step = .ok second) :
    Reads ("RANGE " ++ first ++ " STEP " ++ second).toList (frameTokens window) := by
  obtain ⟨hslots, hsteps⟩ := List.forall_mem_append.mp h.slots
  have hrange := Window.reads_durationText hfirst (hslots range (by simp [hframe, Frame.terms]))
  have hvariable : step.isVariable → step.token.Lexical := by
    rw [hstep]
    cases hgiven : window.step with
    | none =>
        intro hvariable
        cases hvariable
    | some given => exact hsteps given (by simp [hgiven])
  have hparts := Reads.keyword "RANGE" (by decide)
    (hrange.append (.keyword "STEP" (by decide) (Window.reads_durationText hsecond hvariable)))
  rw [frameTokens, hframe]
  dsimp only
  rw [← hstep]
  simpa [String.toList_append] using hparts

theorem ensures_streamClause (h : window.Utterable) :
    Ensures (streamClause strict window) fun text => Reads text.toList (clauseTokens window) := by
  have hclause {frame : String} (hframe : Reads frame.toList (frameTokens window)) :=
    Window.reads_fromStream h.stream hframe
  unfold streamClause
  cases hframe : window.frame with
  | logical range =>
      refine (Ensures.liftM _).bind fun first hfirst => ?_
      cases hgiven : window.step with
      | none =>
          refine .bind_right fun _ => (Ensures.pure (Eq.refl _)).bind fun step hstep => ?_
          refine (Ensures.liftM _).bind fun second hsecond =>
            .pure (hclause (reads_timeFrame h hframe ?_ hfirst hsecond))
          rw [hgiven]
          exact hstep.symm
      | some step =>
          refine (Ensures.pure (Eq.refl _)).bind fun step hstep => ?_
          refine (Ensures.liftM _).bind fun second hsecond =>
            .pure (hclause (reads_timeFrame h hframe ?_ hfirst hsecond))
          rw [hgiven]
          exact hstep.symm
  | physical items =>
      obtain ⟨hslots, -⟩ := List.forall_mem_append.mp h.slots
      refine (Window.ensures_itemsFrame (hslots items (by simp [hframe, Frame.terms]))).bind
        fun frame hitems => .pure (hclause ?_)
      rwa [frameTokens, hframe]
  | past start stop => exact .throw _

end CSparql

namespace CqelsQl

variable {window : Window} {strict : Bool}

/-- The tokens of the frame and the step of a window. -/
def frameTokens (window : Window) : List Token :=
  match window.frame with
  | .logical range => .word "RANGE" :: range.durationTokens .cqelsQl ++
      window.step.toList.flatMap fun step => .word "SLIDE" :: step.durationTokens .cqelsQl
  | .physical items => [.word "TRIPLES", items.countToken]
  | .past _ _ => []

/-- The tokens in front of the blocks of a window. -/
def headerTokens (window : Window) : List Token := window.streamTokens (frameTokens window)

theorem ensures_streamHeader (h : window.Utterable) :
    Ensures (streamHeader strict window) fun text => Reads text.toList (headerTokens window) := by
  have hheader {frame : String} (hframe : Reads frame.toList (frameTokens window)) :=
    Window.reads_stream h.stream hframe
  obtain ⟨hslots, hsteps⟩ := List.forall_mem_append.mp h.slots
  unfold streamHeader
  cases hframe : window.frame with
  | logical range =>
      refine (Ensures.liftM _).bind fun first hfirst => ?_
      have hrange := Reads.keyword "RANGE" (by decide)
        (Window.reads_durationText hfirst (hslots range (by simp [hframe, Frame.terms])))
      cases hgiven : window.step with
      | none =>
          refine .pure (hheader ?_)
          simpa [frameTokens, hframe, hgiven, String.toList_append] using hrange
      | some step =>
          refine (Ensures.liftM _).bind fun second hsecond => .pure (hheader ?_)
          have hslide := Reads.keyword "SLIDE" (by decide)
            (Window.reads_durationText hsecond (hsteps step (by simp [hgiven])))
          simpa [frameTokens, hframe, hgiven, String.toList_append] using hrange.append hslide
  | physical items =>
      refine (Window.ensures_itemsFrame (hslots items (by simp [hframe, Frame.terms]))).bind
        fun frame hitems => .pure (hheader ?_)
      rwa [frameTokens, hframe]
  | past start stop => exact .throw _

end CqelsQl

namespace SparqlStream

variable {window : Window} {text : String}

/-- The tokens of the frame of a window, relative to now. -/
def frameTokens (window : Window) : List Token :=
  match window.frame with
  | .logical range => range.pastTokens .sparqlStream
  | .past start stop =>
    start.pastTokens .sparqlStream ++ .word "TO" :: stop.pastTokens .sparqlStream
  | .physical _ => []

/-- The tokens of the step of a window. -/
def slideTokens (window : Window) : List Token :=
  window.step.toList.flatMap fun step => .word "SLIDE" :: step.durationTokens .sparqlStream

/-- The tokens of the clause of a window. -/
def clauseTokens (window : Window) : List Token :=
  .word "FROM" :: window.streamTokens (frameTokens window ++ slideTokens window)

theorem reads_frameText (h : window.Utterable) (htext : frameText window = .ok text) :
    Reads text.toList (frameTokens window) := by
  obtain ⟨hslots, -⟩ := List.forall_mem_append.mp h.slots
  unfold frameText at htext
  unfold frameTokens
  revert hslots
  cases hframe : window.frame with
  | logical range =>
      intro hslots
      rw [hframe] at htext
      obtain ⟨first, hfirst, htext⟩ := bind_eq_ok_iff.mp htext
      cases htext
      rw [String.toList_append]
      exact Window.reads_pastText hfirst (hslots range List.mem_cons_self)
  | past start stop =>
      intro hslots
      rw [hframe] at htext
      obtain ⟨first, hfirst, htext⟩ := bind_eq_ok_iff.mp htext
      obtain ⟨last, hlast, htext⟩ := bind_eq_ok_iff.mp htext
      cases htext
      have hstart := Window.reads_pastText hfirst (hslots start (by simp [Frame.terms]))
      have hstop := Window.reads_pastText hlast (hslots stop (by simp [Frame.terms]))
      simpa [String.toList_append] using hstart.append (Reads.keyword "TO" (by decide) hstop)
  | physical items =>
      rw [hframe] at htext
      cases htext

/-- A step is read behind a frame, if there is one. -/
theorem reads_slideText {frame slide : String} (h : window.Utterable)
    (hframe : Reads frame.toList (frameTokens window)) (hslide : slideText window = .ok slide) :
    Reads (frame ++ slide).toList (frameTokens window ++ slideTokens window) := by
  obtain ⟨-, hsteps⟩ := List.forall_mem_append.mp h.slots
  unfold slideText at hslide
  unfold slideTokens
  cases hstep : window.step with
  | none =>
      rw [hstep] at hslide
      cases hslide
      simpa using hframe
  | some step =>
      rw [hstep] at hslide
      obtain ⟨length, hlength, heq⟩ := bind_eq_ok_iff.mp hslide
      cases heq
      have hread := Window.reads_durationText hlength (hsteps step (by simp [hstep]))
      simpa [String.toList_append] using hframe.append (Reads.keyword "SLIDE" (by decide) hread)

theorem reads_streamClause (h : window.Utterable) (htext : streamClause window = .ok text) :
    Reads text.toList (clauseTokens window) := by
  rw [streamClause_eq] at htext
  obtain ⟨slide, hslide, htext⟩ := bind_eq_ok_iff.mp htext
  obtain ⟨frame, hframe, htext⟩ := bind_eq_ok_iff.mp htext
  cases htext
  have hslots := reads_slideText h (reads_frameText h hframe) hslide
  simpa [clauseTokens, String.append_assoc] using Window.reads_fromStream h.stream hslots

end SparqlStream

end StreamQuery
