import StreamQuery.Proofs.Query.Name

/-! # Characters of IRIs

An absolute IRI begins with a letter and has a colon behind its scheme. All of its characters can
stand between angle brackets, component by component.
-/

namespace StreamQuery

open Text Lexeme Token

namespace IriGrammar

variable {cs : List Char}

theorem eq_of_splitFirst {separator : Char} {head tail : List Char}
    (h : splitFirst separator cs = (head, some tail)) : cs = head ++ separator :: tail := by
  unfold splitFirst at h
  split at h
  · cases h
  · next mark rest hdrop =>
    cases h
    have hhead := List.head?_dropWhile_not (fun d => decide (d ≠ separator)) cs
    rw [hdrop] at hhead
    have hmark : mark = separator := by simpa using hhead
    rw [← hmark, ← hdrop, hmark, List.takeWhile_append_dropWhile]

theorem mem_of_splitFirst {separator : Char} {head : List Char} {tail : Option (List Char)}
    (h : splitFirst separator cs = (head, tail)) {c : Char} (hc : c ∈ cs) :
    c ∈ head ∨ c = separator ∨ ∃ rest, tail = some rest ∧ c ∈ rest := by
  cases tail with
  | none =>
      unfold splitFirst at h
      split at h
      · cases h
        exact .inl hc
      · cases h
  | some tail =>
      rw [eq_of_splitFirst h, List.mem_append, List.mem_cons] at hc
      exact hc.imp_right (Or.imp_right fun hc => ⟨tail, rfl, hc⟩)

theorem mem_of_splitAll (separator : Char) {c : Char} (hc : c ∈ cs) :
    c = separator ∨ ∃ piece ∈ splitAll separator cs, c ∈ piece := by
  induction cs with
  | nil => cases hc
  | cons d cs ih =>
      rw [splitAll]
      split
      · next heq =>
        rcases List.mem_cons.mp hc with rfl | hc
        · exact .inl heq
        · exact (ih hc).imp_right fun ⟨piece, hpiece, hmem⟩ => ⟨piece, List.mem_cons_of_mem _ hpiece, hmem⟩
      · split
        · next hnil =>
          rcases List.mem_cons.mp hc with rfl | hc
          · exact .inr ⟨[c], List.mem_cons_self, List.mem_cons_self⟩
          · refine (ih hc).imp_right fun ⟨piece, hpiece, _⟩ => ?_
            rw [hnil] at hpiece
            cases hpiece
        · next first others heq =>
          rcases List.mem_cons.mp hc with rfl | hc
          · exact .inr ⟨c :: first, List.mem_cons_self, List.mem_cons_self⟩
          · refine (ih hc).imp_right fun ⟨piece, hpiece, hmem⟩ => ?_
            rw [heq] at hpiece
            rcases List.mem_cons.mp hpiece with rfl | hpiece
            · exact ⟨d :: piece, List.mem_cons_self, List.mem_cons_of_mem _ hmem⟩
            · exact ⟨piece, List.mem_cons_of_mem _ hpiece, hmem⟩

/-! ## Classes of characters -/

theorem isIriChar_of_isHostChar {c : Char} (h : isHostChar c) : isIriChar c := by
  simp only [isHostChar, isUnreserved, Bool.or_eq_true, beq_iff_eq] at h
  rcases h with (((((h | rfl) | rfl) | rfl) | rfl) | h) | h
  · exact isIriChar_of_isAlphanum h
  · decide
  · decide
  · decide
  · decide
  · refine isIriChar_of_not_ascii ?_
    simp only [isExtension, Bool.or_eq_true, Bool.and_eq_true, decide_eq_true_eq] at h
    omega
  · have hall : ∀ d ∈ "!$&'()*+,;=".toList, isIriChar d := by decide
    exact hall c (List.contains_iff_mem.mp h)

theorem isIriChar_of_isPathChar {c : Char} (h : isPathChar c) : isIriChar c := by
  simp only [isPathChar, Bool.or_eq_true, beq_iff_eq] at h
  rcases h with ((h | rfl) | rfl) | rfl
  · exact isIriChar_of_isHostChar h
  all_goals decide

theorem isIriChar_of_isFragmentChar {c : Char} (h : isFragmentChar c) : isIriChar c := by
  simp only [isFragmentChar, Bool.or_eq_true, beq_iff_eq] at h
  rcases h with h | rfl
  · exact isIriChar_of_isPathChar h
  · decide

theorem isIriChar_of_isQueryChar {c : Char} (h : isQueryChar c) : isIriChar c := by
  rw [isQueryChar, Bool.or_eq_true] at h
  rcases h with h | h
  · exact isIriChar_of_isFragmentChar h
  · refine isIriChar_of_not_ascii ?_
    simp only [isPrivate, Bool.or_eq_true, Bool.and_eq_true, decide_eq_true_eq] at h
    omega

theorem isIriChar_of_isDigit {c : Char} (h : c.isDigit) : isIriChar c :=
  isIriChar_of_isAlphanum (by simp [Char.isAlphanum, h])

theorem isIriChar_of_isHexDigit {c : Char} (h : isHexDigit c) : isIriChar c := by
  apply isIriChar_of_isAlphanum
  rw [isAlphanum_iff_toNat]
  simp only [isHexDigit, Bool.or_eq_true, Bool.and_eq_true, decide_eq_true_eq,
    Char.isDigit_iff_toNat, Char.le_def, UInt32.le_iff_toNat_le, Char.toNat_val] at h
  have hcodes : 'a'.toNat = 97 ∧ 'f'.toNat = 102 ∧ 'A'.toNat = 65 ∧ 'F'.toNat = 70 := by decide
  have hdigits : '0'.toNat = 48 ∧ '9'.toNat = 57 := by decide
  omega

/-! ## Components -/

theorem isIriChar_of_isComponent {allowed : Char → Bool} (hallowed : ∀ c, allowed c → isIriChar c)
    (h : isComponent allowed cs) : ∀ c ∈ cs, isIriChar c := by
  fun_induction isComponent allowed cs with
  | case1 => nofun
  | case2 a b rest ih =>
      simp only [Bool.and_eq_true] at h
      simp only [List.forall_mem_cons]
      exact ⟨by decide, isIriChar_of_isHexDigit h.1.1, isIriChar_of_isHexDigit h.1.2, ih h.2⟩
  | case3 c rest _ ih =>
      rw [Bool.and_eq_true] at h
      exact List.forall_mem_cons.mpr ⟨hallowed c h.1, ih h.2⟩

theorem isComponent_of_all {allowed : Char → Bool} (h : ∀ c ∈ cs, allowed c ∧ c ≠ '%') :
    isComponent allowed cs := by
  fun_induction isComponent allowed cs with
  | case1 => rfl
  | case2 a b rest => exact absurd rfl (h '%' List.mem_cons_self).2
  | case3 c rest _ ih =>
      obtain ⟨⟨hc, -⟩, hrest⟩ := List.forall_mem_cons.mp h
      rw [hc, ih hrest]
      rfl

theorem isIriChar_of_digits (h : cs.all Char.isDigit) : ∀ c ∈ cs, isIriChar c :=
  fun c hc => isIriChar_of_isDigit (List.all_eq_true.mp h c hc)

theorem isIriChar_of_hexDigits (h : cs.all isHexDigit) : ∀ c ∈ cs, isIriChar c :=
  fun c hc => isIriChar_of_isHexDigit (List.all_eq_true.mp h c hc)

theorem isIriChar_of_isIpv4 (h : isIpv4 cs) : ∀ c ∈ cs, isIriChar c := by
  intro c hc
  simp only [isIpv4, Bool.and_eq_true, List.all_eq_true] at h
  rcases mem_of_splitAll '.' hc with rfl | ⟨byte, hbyte, hmem⟩
  · decide
  · have hdigits := h.2 byte hbyte
    simp only [isByte, Bool.and_eq_true] at hdigits
    exact isIriChar_of_digits hdigits.1.1.2 c hmem

theorem isIriChar_of_isHexGroup (h : isHexGroup cs) : ∀ c ∈ cs, isIriChar c := by
  rw [isHexGroup, Bool.and_eq_true] at h
  exact isIriChar_of_hexDigits h.2

theorem isIriChar_of_groupCount? {groups : List (List Char)} {count : Nat}
    (h : groupCount? groups = some count) : ∀ group ∈ groups, ∀ c ∈ group, isIriChar c := by
  fun_induction groupCount? groups generalizing count with
  | case1 => nofun
  | case2 last hhex => simpa using isIriChar_of_isHexGroup hhex
  | case3 last _ hip => simpa using isIriChar_of_isIpv4 hip
  | case4 => cases h
  | case5 group groups _ hhex ih =>
      obtain ⟨rest, hrest, -⟩ := Option.map_eq_some_iff.mp h
      exact List.forall_mem_cons.mpr ⟨isIriChar_of_isHexGroup hhex, ih hrest⟩
  | case6 => cases h

theorem isIriChar_of_groups {count : Nat} (h : groupCount? (splitAll ':' cs) = some count) :
    ∀ c ∈ cs, isIriChar c := by
  intro c hc
  rcases mem_of_splitAll ':' hc with rfl | ⟨group, hgroup, hmem⟩
  · decide
  · exact isIriChar_of_groupCount? h group hgroup c hmem

theorem isIriChar_of_textGroupCount? {count : Nat} (h : textGroupCount? cs = some count) :
    ∀ c ∈ cs, isIriChar c := by
  unfold textGroupCount? at h
  split at h
  · next hempty =>
    rw [List.isEmpty_iff.mp hempty]
    nofun
  · exact isIriChar_of_groups h

theorem mem_of_splitDoubleColon {head tail : List Char}
    (h : splitDoubleColon cs = (head, some tail)) {c : Char} (hc : c ∈ cs) :
    c ∈ head ∨ c = ':' ∨ c ∈ tail := by
  fun_induction splitDoubleColon cs generalizing head with
  | case1 rest =>
      cases h
      simpa [or_comm] using hc
  | case2 => cases h
  | case3 d rest _ head' tail' hsplit ih =>
      obtain ⟨rfl, rfl⟩ := Prod.mk.inj h
      rcases List.mem_cons.mp hc with rfl | hc
      · exact .inl List.mem_cons_self
      · exact (ih hsplit hc).imp_left (List.mem_cons_of_mem _)

theorem isIriChar_of_isIpv6 (h : isIpv6 cs) : ∀ c ∈ cs, isIriChar c := by
  unfold isIpv6 at h
  split at h
  · exact isIriChar_of_groups (beq_iff_eq.mp h)
  · next head tail hsplit =>
    split at h
    · next m n hhead htail =>
      intro c hc
      rcases mem_of_splitDoubleColon hsplit hc with hc | rfl | hc
      · exact isIriChar_of_textGroupCount? hhead c hc
      · decide
      · exact isIriChar_of_textGroupCount? htail c hc
    · cases h

theorem isIriChar_of_isIpFuture (h : isIpFuture cs) : ∀ c ∈ cs, isIriChar c := by
  unfold isIpFuture at h
  split at h
  · next v rest =>
    rw [Bool.and_eq_true, Bool.or_eq_true, beq_iff_eq, beq_iff_eq] at h
    obtain ⟨hv, h⟩ := h
    split at h
    · next version address hsplit =>
      simp only [Bool.and_eq_true] at h
      refine List.forall_mem_cons.mpr ⟨by rcases hv with rfl | rfl <;> decide, fun c hc => ?_⟩
      rcases mem_of_splitFirst hsplit hc with hc | rfl | ⟨_, ⟨⟩, hc⟩
      · exact isIriChar_of_hexDigits h.1.1.2 c hc
      · decide
      · have hchar := List.all_eq_true.mp h.2 c hc
        rw [Bool.or_eq_true, Bool.and_eq_true, beq_iff_eq] at hchar
        rcases hchar with hchar | rfl
        · exact isIriChar_of_isHostChar hchar.2
        · decide
    · cases h
  · cases h

theorem isIriChar_of_isHostEnd (h : isHostEnd cs) : ∀ c ∈ cs, isIriChar c := by
  cases cs with
  | nil => nofun
  | cons c digits =>
      rw [isHostEnd, Bool.and_eq_true, beq_iff_eq] at h
      obtain ⟨rfl, hdigits⟩ := h
      exact List.forall_mem_cons.mpr ⟨by decide, isIriChar_of_digits hdigits⟩

/-! ## Hosts and what is around them -/

theorem isIriChar_of_isHost (h : isHost cs) : ∀ c ∈ cs, isIriChar c := by
  unfold isHost at h
  split at h
  · next rest =>
    split at h
    · next address behind hsplit =>
      rw [Bool.and_eq_true, Bool.or_eq_true] at h
      refine List.forall_mem_cons.mpr ⟨by decide, fun c hc => ?_⟩
      rcases mem_of_splitFirst hsplit hc with hc | rfl | ⟨_, ⟨⟩, hc⟩
      · exact h.1.elim (isIriChar_of_isIpv6 · c hc) (isIriChar_of_isIpFuture · c hc)
      · decide
      · exact isIriChar_of_isHostEnd h.2 c hc
    · cases h
  · split at h
    · next name hsplit =>
      intro c hc
      rcases mem_of_splitFirst hsplit hc with hc | rfl | ⟨_, hnone, _⟩
      · exact isIriChar_of_isComponent (fun _ => isIriChar_of_isHostChar) h c hc
      · decide
      · cases hnone
    · next name digits hsplit =>
      rw [Bool.and_eq_true] at h
      intro c hc
      rcases mem_of_splitFirst hsplit hc with hc | rfl | ⟨_, ⟨⟩, hc⟩
      · exact isIriChar_of_isComponent (fun _ => isIriChar_of_isHostChar) h.1 c hc
      · decide
      · exact isIriChar_of_digits h.2 c hc

theorem isIriChar_of_isAuthority (h : isAuthority cs) : ∀ c ∈ cs, isIriChar c := by
  unfold isAuthority at h
  split at h
  · exact isIriChar_of_isHost h
  · next user host hsplit =>
    rw [Bool.and_eq_true] at h
    intro c hc
    rcases mem_of_splitFirst hsplit hc with hc | rfl | ⟨_, ⟨⟩, hc⟩
    · refine isIriChar_of_isComponent (fun d hd => ?_) h.1 c hc
      rw [Bool.or_eq_true, beq_iff_eq] at hd
      rcases hd with hd | rfl
      · exact isIriChar_of_isHostChar hd
      · decide
    · decide
    · exact isIriChar_of_isHost h.2 c hc

theorem isIriChar_of_isHierarchy (h : isHierarchy cs) : ∀ c ∈ cs, isIriChar c := by
  unfold isHierarchy at h
  split at h
  · next rest =>
    rw [Bool.and_eq_true] at h
    refine List.forall_mem_cons.mpr ⟨by decide, List.forall_mem_cons.mpr ⟨by decide, ?_⟩⟩
    intro c hc
    rw [← List.takeWhile_append_dropWhile (p := fun d => decide (d ≠ '/')) (l := rest),
      List.mem_append] at hc
    rcases hc with hc | hc
    · exact isIriChar_of_isAuthority h.1 c hc
    · exact isIriChar_of_isComponent (fun _ => isIriChar_of_isPathChar) h.2 c hc
  · exact isIriChar_of_isComponent (fun _ => isIriChar_of_isPathChar) h

theorem isIriChar_of_isAfterScheme (h : isAfterScheme cs) : ∀ c ∈ cs, isIriChar c := by
  unfold isAfterScheme at h
  split at h
  next body fragment hbody =>
  split at h
  next hierarchy query hquery =>
  rw [Bool.and_eq_true, Bool.and_eq_true] at h
  intro c hc
  rcases mem_of_splitFirst hbody hc with hc | rfl | ⟨rest, rfl, hc⟩
  · rcases mem_of_splitFirst hquery hc with hc | rfl | ⟨rest, rfl, hc⟩
    · exact isIriChar_of_isHierarchy h.1.1 c hc
    · decide
    · exact isIriChar_of_isComponent (fun _ => isIriChar_of_isQueryChar) h.1.2 c hc
  · decide
  · exact isIriChar_of_isComponent (fun _ => isIriChar_of_isFragmentChar) h.2 c hc

/-- An IRI is a scheme, which begins with a letter, a colon and what follows. -/
theorem exists_scheme (h : isAbsolute cs) : ∃ first others rest, cs = first :: others ++ ':' :: rest ∧
    first.isAlpha ∧ (∀ c ∈ first :: others, isIriChar c) ∧ isAfterScheme rest := by
  obtain ⟨rest, hscheme, hrest⟩ := Option.any_eq_true _ _ |>.mp h
  unfold afterScheme? at hscheme
  split at hscheme
  · next first others rest' hsplit =>
    split at hscheme
    · next hchars =>
      cases hscheme
      rw [Bool.and_eq_true] at hchars
      refine ⟨first, others, rest, eq_of_splitFirst hsplit, hchars.1, ?_, hrest⟩
      refine List.forall_mem_cons.mpr ⟨isIriChar_of_isAlphanum (by simp [Char.isAlphanum, hchars.1]), ?_⟩
      intro c hc
      have hchar := List.all_eq_true.mp hchars.2 c hc
      simp only [Bool.or_eq_true, beq_iff_eq] at hchar
      rcases hchar with ((hchar | rfl) | rfl) | rfl
      · exact isIriChar_of_isAlphanum hchar
      all_goals decide
    · cases hscheme
  · cases hscheme

end IriGrammar

namespace Iri

/-- All characters of an IRI can stand between angle brackets. -/
theorem isIriChar_of_mem (iri : Iri) : ∀ c ∈ iri.text.toList, isIriChar c := by
  obtain ⟨first, others, rest, heq, -, hscheme, hrest⟩ := IriGrammar.exists_scheme iri.absolute
  intro c hc
  rw [heq, List.mem_append] at hc
  rcases hc with hc | hc
  · exact hscheme c hc
  rcases List.mem_cons.mp hc with rfl | hc
  · decide
  · exact IriGrammar.isIriChar_of_isAfterScheme hrest c hc

theorem toList_bracketed (iri : Iri) : iri.bracketed.toList = '<' :: (iri.text.toList ++ ['>']) := by
  simp [bracketed]

theorem not_mem_close (iri : Iri) : '>' ∉ iri.text.toList := fun h =>
  absurd (iri.isIriChar_of_mem _ h) (by decide)

/-- Nothing that no letter belongs to is dropped in front of an IRI. -/
theorem dropWhile_text_append (iri : Iri) {allowed : Char → Bool}
    (h : ∀ c, c.isAlpha → allowed c = false) (tail : List Char) :
    (iri.text.toList ++ tail).dropWhile allowed = iri.text.toList ++ tail := by
  obtain ⟨first, others, rest, heq, hfirst, -, -⟩ := IriGrammar.exists_scheme iri.absolute
  rw [heq, List.cons_append, List.cons_append, List.dropWhile_cons_of_neg]
  rw [h first hfirst]
  exact Bool.false_ne_true

/-- Dropping the brackets of an IRI, however many there may be, leaves the IRI. -/
theorem trimRight_bracketed (iri : Iri) :
    trimRight '>' (iri.bracketed.toList.dropWhile (· == '<')) = iri.text.toList := by
  have hopen : iri.bracketed.toList.dropWhile (· == '<') = iri.text.toList ++ ['>'] := by
    rw [toList_bracketed, List.dropWhile_cons_of_pos (by decide)]
    refine iri.dropWhile_text_append (fun c hc => beq_false_of_ne fun heq => ?_) _
    rw [heq] at hc
    exact absurd hc (by decide)
  have hclose : trimRight '>' (iri.text.toList ++ ['>']) = trimRight '>' iri.text.toList := by
    simp [trimRight]
  rw [hopen, hclose, trimRight_of_getLast? fun h => iri.not_mem_close (List.mem_of_getLast? h)]

end Iri

end StreamQuery
