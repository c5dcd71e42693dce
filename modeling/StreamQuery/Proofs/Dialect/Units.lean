import StreamQuery.Proofs.Dialect.Clause

/-! # Durations in units

A duration is written as an amount of one unit of a table, exactly: the largest unit that divides it. What
is written can be read in the table in one way only, so that a dialect says how long a window is and cannot
be misread.
-/

namespace StreamQuery

open Text Lexeme

namespace Text

/-! ## Amounts -/

/-- The decimal digits of a number, without zeros in front. -/
structure IsDecimal (n : Nat) (digits : List Char) : Prop where
  ne_nil : digits ≠ []
  isDigit : ∀ c ∈ digits, c.isDigit
  value : digitsValue digits = n
  leading : digits.head? = some '0' → digits = ['0']

theorem digitChar_eq_zero {n : Nat} (hlt : n < 10) (h : Nat.digitChar n = '0') : n = 0 := by
  have hall : ∀ n < 10, Nat.digitChar n = '0' → n = 0 := by decide
  exact hall n hlt h

/-- The first digit of a number is the first digit of its tenth, if it has one. -/
theorem head?_decimal_ne {n : Nat} (h : n ≠ 0) : (decimal n).head? ≠ some '0' := by
  induction n using Nat.strongRecOn with
  | ind n ih =>
      unfold decimal
      by_cases hlt : n < 10
      · rw [Nat.toDigits_of_lt_base hlt]
        intro hhead
        exact h (digitChar_eq_zero hlt (Option.some.inj hhead))
      · rw [Nat.toDigits_of_base_le (by decide) (by omega), List.head?_append_of_ne_nil _ Nat.toDigits_ne_nil]
        exact ih (n / 10) (by omega) (by omega)

theorem isDecimal_decimal (n : Nat) : IsDecimal n (decimal n) where
  ne_nil := Nat.toDigits_ne_nil
  isDigit _ := isDigit_of_mem_decimal
  value := digitsValue_decimal n
  leading hhead := by
    obtain rfl : n = 0 := by
      by_contra hne
      exact head?_decimal_ne hne hhead
    rfl

end Text

/-! ## Texts in a table of units -/

namespace TimeUnit

variable {unit other : TimeUnit} {units : List TimeUnit} {separator text : String} {n m : Nat}

/-- A table of units: they have a size, and ascend. -/
structure IsTable (units : List TimeUnit) : Prop where
  positive : ∀ unit ∈ units, 0 < unit.nanos
  ascending : units.Pairwise (·.nanos ≤ ·.nanos)

/-- A text that says so many of a unit. -/
def Says (unit : TimeUnit) (separator : String) (n : Nat) (text : String) : Prop :=
  ∃ digits, IsDecimal n digits ∧ text = String.ofList digits ++ separator ++ unit.symbol

/-- A text that says so many nanoseconds in one of the units. -/
def Denotes (units : List TimeUnit) (separator text : String) (nanos : Nat) : Prop :=
  ∃ unit ∈ units, ∃ n, unit.Says separator n text ∧ n * unit.nanos = nanos

/-- Units that are told apart by what stands behind an amount. -/
structure Distinct (units : List TimeUnit) (separator : String) : Prop where
  stops : ∀ unit ∈ units, Stops Char.isDigit (separator ++ unit.symbol).toList
  symbols : ∀ unit ∈ units, ∀ other ∈ units, unit.symbol = other.symbol → unit = other

/-- An amount ends where the digits end. -/
theorem Says.unique (h : unit.Says separator n text) (h' : other.Says separator m text)
    (hstops : Stops Char.isDigit (separator ++ unit.symbol).toList)
    (hstops' : Stops Char.isDigit (separator ++ other.symbol).toList) :
    n = m ∧ unit.symbol = other.symbol := by
  obtain ⟨digits, hdigits, rfl⟩ := h
  obtain ⟨digits', hdigits', htext⟩ := h'
  have hchars : digits ++ (separator ++ unit.symbol).toList =
      digits' ++ (separator ++ other.symbol).toList := by
    simpa [String.append_assoc, String.toList_append] using congrArg String.toList htext
  have hsame : digits = digits' := by
    have htaken := congrArg (List.takeWhile Char.isDigit) hchars
    rwa [DurationFields.takeWhile_digits hdigits.isDigit hstops,
      DurationFields.takeWhile_digits hdigits'.isDigit hstops'] at htaken
  subst hsame
  refine ⟨hdigits.value.symm.trans hdigits'.value, ?_⟩
  have hsymbol := List.append_cancel_left hchars
  rw [String.toList_append, String.toList_append] at hsymbol
  exact String.toList_inj.mp (List.append_cancel_left hsymbol)

theorem Denotes.unique (hdistinct : Distinct units separator) {nanos nanos' : Nat}
    (h : Denotes units separator text nanos) (h' : Denotes units separator text nanos') :
    nanos = nanos' := by
  obtain ⟨unit, hunit, n, hsays, rfl⟩ := h
  obtain ⟨other, hother, m, hsays', rfl⟩ := h'
  obtain ⟨rfl, hsymbol⟩ := hsays.unique hsays' (hdistinct.stops unit hunit) (hdistinct.stops other hother)
  rw [hdistinct.symbols unit hunit other hother hsymbol]

end TimeUnit

namespace Duration

variable {d : Duration} {units : List TimeUnit} {unit other : TimeUnit} {separator text : String}

theorem totalNanos_eq_zero_iff : d.totalNanos = 0 ↔ d.seconds = 0 ∧ d.nanos = 0 := by
  unfold totalNanos nanosPerSecond
  omega

theorem unit?_eq_none_iff : d.unit? units = none ↔
    units = [] ∨ d.totalNanos ≠ 0 ∧ ∀ unit ∈ units, ¬ unit.nanos ∣ d.totalNanos := by
  unfold unit?
  split
  · next hzero =>
    rw [← totalNanos_eq_zero_iff] at hzero
    cases units with
    | nil => simp
    | cons first rest => simp [hzero]
  · next hzero =>
    rw [← totalNanos_eq_zero_iff] at hzero
    have hnil : units = [] → ∀ unit ∈ units, ¬ unit.nanos ∣ d.totalNanos := by
      rintro rfl
      nofun
    rw [and_iff_right hzero, or_iff_right_of_imp hnil, List.find?_eq_none]
    simp [Nat.dvd_iff_mod_eq_zero]

/-- The unit divides the duration, and so does no larger one. -/
theorem unit?_spec (htable : TimeUnit.IsTable units) (h : d.unit? units = some unit) :
    unit.nanos ∣ d.totalNanos ∧
      (d.totalNanos ≠ 0 → ∀ other ∈ units, other.nanos ∣ d.totalNanos → other.nanos ≤ unit.nanos) := by
  unfold unit? at h
  split at h
  · next hzero =>
    rw [← totalNanos_eq_zero_iff] at hzero
    rw [hzero]
    exact ⟨Nat.dvd_zero _, fun hne => absurd rfl hne⟩
  · obtain ⟨hdivides, before, after, hsplit, hbefore⟩ := List.find?_eq_some_iff_append.mp h
    refine ⟨Nat.dvd_of_mod_eq_zero (by simpa using hdivides), fun _ other hother hdvd => ?_⟩
    -- a unit in front of the one that was found is larger, and was passed over
    have hdescending : (before ++ unit :: after).Pairwise fun a b => b.nanos ≤ a.nanos := by
      rw [← hsplit]
      exact List.pairwise_reverse.mpr htable.ascending
    have hmem : other ∈ before ++ unit :: after := hsplit ▸ List.mem_reverse.mpr hother
    rcases List.mem_append.mp hmem with hfront | hback
    · have hpassed := hbefore other hfront
      simp [Nat.mod_eq_zero_of_dvd hdvd] at hpassed
    · rcases List.mem_cons.mp hback with rfl | hafter
      · exact Nat.le_refl _
      · exact List.rel_of_pairwise_cons (List.pairwise_append.mp hdescending).2.1 hafter

theorem inUnits?_eq_none_iff : d.inUnits? units separator = none ↔
    units = [] ∨ d.totalNanos ≠ 0 ∧ ∀ unit ∈ units, ¬ unit.nanos ∣ d.totalNanos := by
  rw [inUnits?_eq, Option.map_eq_none_iff, unit?_eq_none_iff]

/-- What is written is a whole amount of the largest unit that divides the duration. -/
theorem exists_says_of_inUnits? (htable : TimeUnit.IsTable units) (h : d.inUnits? units separator = some text) :
    ∃ unit ∈ units, ∃ n, unit.Says separator n text ∧ n * unit.nanos = d.totalNanos ∧
      (d.totalNanos ≠ 0 → ∀ other ∈ units, other.nanos ∣ d.totalNanos → other.nanos ≤ unit.nanos) := by
  rw [inUnits?_eq] at h
  obtain ⟨unit, hunit, rfl⟩ := Option.map_eq_some_iff.mp h
  obtain ⟨hdvd, hlargest⟩ := unit?_spec htable hunit
  exact ⟨unit, mem_of_unit? hunit, _, ⟨_, isDecimal_decimal _, rfl⟩, Nat.div_mul_cancel hdvd, hlargest⟩

end Duration

/-! ## The tables of the dialects -/

namespace Dialect

theorem isTable_units (dialect : Dialect) : TimeUnit.IsTable dialect.capabilities.units := by
  cases dialect <;> exact ⟨by decide, by decide⟩

theorem distinct_units (dialect : Dialect) :
    TimeUnit.Distinct dialect.capabilities.units dialect.capabilities.separator := by
  cases dialect <;> exact ⟨by decide, by decide⟩

/-- A text that says so many nanoseconds in the units of a dialect. -/
def Denotes (dialect : Dialect) (text : String) (nanos : Nat) : Prop :=
  TimeUnit.Denotes dialect.capabilities.units dialect.capabilities.separator text nanos

end Dialect

namespace Window

variable {dialect : Dialect} {window : Window} {field text : String} {term : Term} {d : Duration}

theorem inUnits?_of_durationText (hd : term.duration? = some (.ok d))
    (h : window.durationText dialect field term = .ok text) :
    d.inUnits? dialect.capabilities.units dialect.capabilities.separator = some text := by
  unfold durationText at h
  split at h
  · next hvariable =>
    cases term with
    | «variable» v => cases hd
    | _ => cases hvariable
  · rw [hd] at h
    dsimp only at h
    split at h
    · next found hfound =>
      cases h
      exact hfound
    · cases h

/-- The text of a duration in a dialect says how long it is, and nothing else. -/
theorem denotes_durationText_iff (hd : term.duration? = some (.ok d))
    (h : window.durationText dialect field term = .ok text) (nanos : Nat) :
    dialect.Denotes text nanos ↔ nanos = d.totalNanos := by
  obtain ⟨unit, hunit, n, hsays, htotal, -⟩ :=
    Duration.exists_says_of_inUnits? dialect.isTable_units (inUnits?_of_durationText hd h)
  have hdenotes : dialect.Denotes text d.totalNanos := ⟨unit, hunit, n, hsays, htotal⟩
  refine ⟨fun hnanos => hnanos.unique dialect.distinct_units hdenotes, ?_⟩
  rintro rfl
  exact hdenotes

theorem exists_durationText_iff {grain : Nat} (hgrain : dialect.HasGrain grain)
    (hd : term.duration? = some (.ok d)) :
    (∃ text, window.durationText dialect field term = .ok text) ↔ grain ∣ d.totalNanos := by
  rw [durationText_ok_iff hgrain, Term.IsDuration, hd]
  cases term with
  | «variable» v => cases hd
  | _ => simp [Term.isVariable]

end Window

namespace Duration

/-- A duration has a text in a table of units unless the table is empty or no unit divides what is not
zero; the text is an exact amount of the largest unit that divides it. In CQELS-QL every duration can be
written, in C-SPARQL and SPARQLStream every multiple of a millisecond and no other, and what is written in a
dialect says how long the duration is, and nothing else. -/
theorem inUnits?_exact :
    (∀ (d : Duration) (units : List TimeUnit) (separator : String), TimeUnit.IsTable units →
      (d.inUnits? units separator = none ↔
        units = [] ∨ d.totalNanos ≠ 0 ∧ ∀ unit ∈ units, ¬ unit.nanos ∣ d.totalNanos) ∧
      ∀ text, d.inUnits? units separator = some text →
        ∃ unit ∈ units, ∃ n, unit.Says separator n text ∧ n * unit.nanos = d.totalNanos ∧
          (d.totalNanos ≠ 0 →
            ∀ other ∈ units, other.nanos ∣ d.totalNanos → other.nanos ≤ unit.nanos)) ∧
    ∀ (window : Window) (field : String) (term : Term) (d : Duration), term.duration? = some (.ok d) →
      (∃ text, window.durationText .cqelsQl field term = .ok text) ∧
      ((∃ text, window.durationText .cSparql field term = .ok text) ↔ 1000000 ∣ d.totalNanos) ∧
      ((∃ text, window.durationText .sparqlStream field term = .ok text) ↔ 1000000 ∣ d.totalNanos) ∧
      ∀ dialect text nanos, window.durationText dialect field term = .ok text →
        (Dialect.Denotes dialect text nanos ↔ nanos = d.totalNanos) := by
  refine ⟨fun d units separator htable => ⟨inUnits?_eq_none_iff, fun text => exists_says_of_inUnits? htable⟩,
    fun window field term d hd => ⟨?_, ?_, ?_, fun dialect text nanos h => ?_⟩⟩
  · exact (Window.exists_durationText_iff CqelsQl.hasGrain hd).mpr (Nat.one_dvd _)
  · exact Window.exists_durationText_iff CSparql.hasGrain hd
  · exact Window.exists_durationText_iff SparqlStream.hasGrain hd
  · exact Window.denotes_durationText_iff hd h nanos

/-- One and a half microseconds. -/
def brief : Duration := .ofNanos 1500 (by decide)

/-- Ninety seconds are not a whole number of minutes, and a microsecond is no multiple of a millisecond. -/
theorem inUnits?_exact_brief :
    let term := Term.literal (.plain "PT0.0000015S")
    TimeUnit.IsTable Dialect.shortUnits ∧ term.duration? = some (.ok brief) ∧
    (ofMillis 90000 (by decide)).inUnits? Dialect.shortUnits "" = some "90s" ∧
    (∃ unit ∈ Dialect.shortUnits, ∃ n, unit.Says "" n "90s" ∧ n * unit.nanos = 90000000000) ∧
    brief.inUnits? Dialect.shortUnits "" = none ∧
    ∀ (window : Window) (field : String),
      (∃ text, window.durationText .cqelsQl field term = .ok text ∧ Dialect.cqelsQl.Denotes text 1500) ∧
      ¬ ∃ text, window.durationText .cSparql field term = .ok text := by
  intro term
  have htable : TimeUnit.IsTable Dialect.shortUnits := Dialect.cSparql.isTable_units
  have hterm : term.duration? = some (.ok brief) := by decide +kernel
  have htext : (ofMillis 90000 (by decide)).inUnits? Dialect.shortUnits "" = some "90s" := by decide +kernel
  obtain ⟨hunits, hwindow⟩ := inUnits?_exact
  obtain ⟨unit, hunit, n, hsays, htotal, -⟩ := (hunits _ _ "" htable).2 _ htext
  refine ⟨htable, hterm, htext, ⟨unit, hunit, n, hsays, htotal⟩,
    (hunits brief _ "" htable).1.mpr (.inr ⟨by decide, by decide⟩), fun window field => ?_⟩
  obtain ⟨⟨text, hcqels⟩, hcsparql, -, hdenotes⟩ := hwindow window field term brief hterm
  refine ⟨⟨text, hcqels, (hdenotes _ _ 1500 hcqels).mpr (by decide)⟩, ?_⟩
  rw [hcsparql]
  decide

end Duration

end StreamQuery
