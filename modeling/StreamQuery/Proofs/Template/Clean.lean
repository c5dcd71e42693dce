import StreamQuery.Proofs.Template.Slot

/-! # What cleaning changes

Where every slot that is found begins with a token, cleaning takes the tokens of its value in quotes
for those of the bare value, and leaves the other tokens alone.
-/

namespace StreamQuery

open Text Lexeme Token

namespace WindowSlot

/-! ### Slots among tokens -/

/-- A slot that is found in a text behind a character. -/
structure Finds (last : Option Char) (cs before : List Char) (slot : TypedSlot) (rest : List Char) :
    Prop where
  text : cs = before ++ (slot.text ++ rest)
  valid : slot.Valid
  typed : typed? (slot.text ++ rest) = some (slot.kept, slot.text.length)
  begins : ¬ (behind last before).any isWordChar

/-- Every slot that is found begins with a token, and its value cannot run together with what follows
it. Something holds of the slot and of the tokens in front of it. -/
def Aligned (holds : List Token → TypedSlot → Prop) (last : Option Char) (cs : List Char) : Prop :=
  ∀ before slot rest, Finds last cs before slot rest → Stops runsOn rest ∧
    ∃ segments segment others last', segmentsOf cs = .ok (segments ++ segment :: others, last') ∧
      before = segments.flatMap Segment.text ++ segment.gap ∧ holds (segments.map Segment.token) slot

/-- Tokens in which the values of slots have lost their quotes and datatypes. -/
inductive Cleaned : (List Token → TypedSlot → Prop) → List Token → List Token → Prop
  | nil {holds : List Token → TypedSlot → Prop} : Cleaned holds [] []
  | keep {holds : List Token → TypedSlot → Prop} {t : Token} {ts us : List Token}
      (hrest : Cleaned (fun front => holds (t :: front)) ts us) : Cleaned holds (t :: ts) (t :: us)
  | slot {holds : List Token → TypedSlot → Prop} {slot : TypedSlot} {past value ts us : List Token}
      {datatype : String} (hslot : holds [] slot) (hvalid : slot.Valid)
      (hpast : PastTokens slot.past past) (hvalue : tokens? (slot.past ++ slot.value) = some value)
      (hrest : Cleaned (fun front => holds (.word (String.ofList slot.keyword) :: past ++
        [slot.literal, .datatypeMark, .iri datatype] ++ front)) ts us) :
      Cleaned holds (.word (String.ofList slot.keyword) :: past ++
        [slot.literal, .datatypeMark, .iri datatype] ++ ts)
        (.word (String.ofList slot.keyword) :: value ++ us)

variable {holds : List Token → TypedSlot → Prop} {last : Option Char} {cs rest : List Char}

/-- What stands behind some tokens of a text is aligned with the tokens there. -/
theorem Aligned.behind (h : Aligned holds last cs) {segments : List Segment} {tail : Split}
    (hsplit : segmentsOf cs = .ok (segments ++ tail.1, tail.2))
    (htext : cs = segments.flatMap Segment.text ++ rest) (hrest : segmentsOf rest = .ok tail) :
    Aligned (fun front => holds (segments.map Segment.token ++ front))
      (behind last (segments.flatMap Segment.text)) rest := by
  intro before slot after hfinds
  obtain ⟨hstops, segments', segment, others, last', hsplit', hbefore, hholds⟩ :=
    h (segments.flatMap Segment.text ++ before) slot after
      ⟨by rw [htext, hfinds.text, List.append_assoc], hfinds.valid, hfinds.typed, by
        rw [behind_append]
        exact hfinds.begins⟩
  have hsame := Prod.mk.inj (Except.ok.inj (hsplit.symm.trans hsplit'))
  have hfaithful := faithful_of_segmentsOf hsplit'
  -- the slot does not begin inside one of the first tokens
  obtain ⟨between, rfl⟩ : ∃ between, segments' = segments ++ between := by
    rcases List.append_eq_append_iff.mp hsame.1 with ⟨between, hbetween, -⟩ | ⟨between, rfl, htail⟩
    · exact ⟨between, hbetween⟩
    · cases between with
      | nil => exact ⟨[], by simp⟩
      | cons head between =>
          obtain ⟨rfl, -⟩ := List.cons_eq_cons.mp htail
          have hlexeme := (hfaithful segment (by simp)).lexeme_ne_nil
          have hlength := congrArg List.length hbefore
          simp only [List.flatMap_append, List.flatMap_cons, Segment.text, List.length_append] at hlength
          have hpos := List.length_pos_iff.mpr hlexeme
          omega
  rw [List.append_assoc] at hsame
  have htail : tail.1 = between ++ segment :: others := List.append_cancel_left hsame.1
  refine ⟨hstops, between, segment, others, last', ?_, ?_, ?_⟩
  · rw [hrest, ← htail, ← hsame.2]
  · rw [List.flatMap_append, List.append_assoc] at hbefore
    exact List.append_cancel_left hbefore
  · rwa [List.map_append] at hholds

/-! ### Cleaning -/

theorem exists_finds {before after : List Char} {kept : List Char × Nat}
    (h : typed? after = some kept) (hbegins : ¬ (WindowSlot.behind last before).any isWordChar) :
    ∃ slot rest, Finds last (before ++ after) before slot rest := by
  obtain ⟨slot, rest, hvalid, rfl, hkept, hlength⟩ := @exists_slot _ kept.2 kept.1 h
  refine ⟨slot, rest, rfl, hvalid, ?_, hbegins⟩
  rw [h, ← hkept, ← hlength]

/-- A slot that begins in the first token of a text begins with it. -/
theorem Aligned.before_eq (h : Aligned holds last cs) {segment : Segment} {tail : Split}
    (hsplit : segmentsOf cs = .ok (tail.cons segment)) {before after rest' : List Char} {slot : TypedSlot}
    (hfinds : Finds last cs before slot rest') (hbefore : segment.text = before ++ after)
    (hne : after ≠ []) : before = segment.gap ∧ Stops runsOn rest' ∧ holds [] slot := by
  obtain ⟨hstops, segments, found, others, last', hsplit', htext, hholds⟩ := h _ _ _ hfinds
  obtain ⟨hsegments, -⟩ := Prod.mk.inj (Except.ok.inj (hsplit.symm.trans hsplit'))
  cases segments with
  | nil =>
      obtain ⟨rfl, -⟩ := List.cons_eq_cons.mp hsegments
      exact ⟨htext, hstops, hholds⟩
  | cons head segments =>
      obtain ⟨rfl, -⟩ := List.cons_eq_cons.mp hsegments
      have hlength := congrArg List.length htext
      have hpieces := congrArg List.length hbefore
      have hpos := List.length_pos_iff.mpr hne
      simp only [List.flatMap_cons, List.length_append] at hlength hpieces
      omega

/-- The beginning of a text is copied if no slot begins with its first token. -/
theorem Aligned.cleanBehind_eq (h : Aligned holds last cs) {segment : Segment} {tail : Split}
    (hsplit : segmentsOf cs = .ok (tail.cons segment)) {piece more : List Char} (hcs : cs = piece ++ rest)
    (hpiece : segment.text = piece ++ more)
    (hslot : ∀ after, piece = segment.gap ++ after → after ≠ [] →
      ¬ (WindowSlot.behind last segment.gap).any isWordChar → typed? (after ++ rest) = none) :
    cleanBehind last 0 cs = piece ++ cleanBehind (WindowSlot.behind last piece) 0 rest := by
  subst hcs
  refine cleanBehind_quiet fun before after hbefore hne hlast => ?_
  cases htyped : typed? (after ++ rest) with
  | none => rfl
  | some kept =>
      obtain ⟨slot, rest', hfinds⟩ := exists_finds htyped hlast
      rw [← List.append_assoc, ← hbefore] at hfinds
      rw [hbefore, List.append_assoc] at hpiece
      obtain ⟨rfl, -⟩ := h.before_eq hsplit hfinds hpiece (by simp [hne])
      rw [hslot after hbefore hne hlast] at htyped
      cases htyped

/-- What is left of a text behind a character is the same up to a space, and its tokens are those of the
text apart from the values of slots. -/
def Cleans (holds : List Token → TypedSlot → Prop) (last : Option Char) (cs : List Char)
    (split : Split) : Prop :=
  Alike cs (cleanBehind last 0 cs) ∧
    ∃ us, tokens? (cleanBehind last 0 cs) = some us ∧ Cleaned holds (split.1.map Segment.token) us

/-- A text without tokens is copied. -/
theorem Aligned.cleans_blank (h : Aligned holds last cs) (hsplit : segmentsOf cs = .ok ([], cs)) :
    Cleans holds last cs ([], cs) := by
  have hquiet : cleanBehind last 0 (cs ++ []) = cs ++ [] := by
    refine cleanBehind_quiet fun before after hcs hafter hlast => ?_
    cases htyped : typed? (after ++ []) with
    | none => rfl
    | some kept =>
        obtain ⟨slot, rest, hfinds⟩ := exists_finds htyped hlast
        rw [List.append_nil, ← hcs] at hfinds
        obtain ⟨-, segments, segment, others, last', hsplit', -⟩ := h _ _ _ hfinds
        rw [hsplit] at hsplit'
        cases segments <;> cases hsplit'
  rw [List.append_nil] at hquiet
  refine ⟨hquiet.symm ▸ .refl cs, [], ?_, .nil⟩
  rw [hquiet, tokens?, hsplit]
  rfl

section Step

variable {space lexeme : List Char} {token : Token} {tail : Split}

/-- Where no slot begins with the first token, the token is kept. -/
theorem Aligned.cleans_keep (h : Aligned holds last (space ++ (lexeme ++ rest)))
    (hsplit : segmentsOf (space ++ (lexeme ++ rest)) = .ok (tail.cons ⟨space, lexeme, token⟩))
    (hgap : gap false (space ++ (lexeme ++ rest)) = space.length)
    (hfirst : first? (lexeme ++ rest) = some (token, lexeme.length)) (hne : lexeme ≠ [])
    (htail : segmentsOf rest = .ok tail)
    (hslot : ¬ (WindowSlot.behind last space).any isWordChar → typed? (lexeme ++ rest) = none)
    (ih : ∀ {holds last}, Aligned holds last rest → Cleans holds last rest tail) :
    Cleans holds last (space ++ (lexeme ++ rest)) (tail.cons ⟨space, lexeme, token⟩) := by
  have htext : [⟨space, lexeme, token⟩].flatMap Segment.text = space ++ lexeme := by
    simp [Segment.text]
  have hbehind := @Aligned.behind _ _ _ _ h [⟨space, lexeme, token⟩] _ hsplit
    (by rw [htext, List.append_assoc]) htail
  obtain ⟨halike, us, hus, hcleaned⟩ := ih hbehind
  rw [htext] at halike hus
  have hclean := h.cleanBehind_eq hsplit (List.append_assoc space lexeme rest).symm
    (List.append_nil _).symm fun after hafter _ hlast => by
      obtain rfl := List.append_cancel_left hafter
      exact hslot hlast
  rw [Cleans, hclean]
  refine ⟨List.append_assoc space lexeme rest ▸ halike.append _, token :: us, ?_, .keep hcleaned⟩
  rw [List.append_assoc, halike.tokens? hgap hfirst hne, hus]
  rfl

/-- Where a slot begins with the first token, the tokens of its value lose quotes and datatype. -/
theorem Aligned.cleans_slot {slot : TypedSlot} {after : List Char}
    (h : Aligned holds last (space ++ (lexeme ++ rest)))
    (hsplit : segmentsOf (space ++ (lexeme ++ rest)) = .ok (tail.cons ⟨space, lexeme, token⟩))
    (hgap : gap false (space ++ (lexeme ++ rest)) = space.length)
    (hfirst : first? (lexeme ++ rest) = some (token, lexeme.length)) (hne : lexeme ≠ [])
    (htail : segmentsOf rest = .ok tail)
    (hfinds : Finds last (space ++ (lexeme ++ rest)) space slot after)
    (ih : ∀ {holds last split}, segmentsOf after = .ok split → Aligned holds last after →
      Cleans holds last after split) :
    Cleans holds last (space ++ (lexeme ++ rest)) (tail.cons ⟨space, lexeme, token⟩) := by
  obtain ⟨-, hstops, hholds⟩ := h.before_eq hsplit hfinds rfl hne
  have htext : slot.text ++ after = slot.keyword ++ (slot.tail ++ after) := by
    simp [TypedSlot.text, TypedSlot.tail]
  have hslot := (List.append_cancel_left hfinds.text).trans htext
  -- the first token is the keyword of the slot
  have hkeyword : first? (slot.keyword ++ (slot.tail ++ after)) =
      some (.word (String.ofList slot.keyword), slot.keyword.length) := by
    rw [TypedSlot.tail, List.append_assoc]
    exact hfinds.valid.first?_keyword _
  have hword := hfirst
  rw [hslot, hkeyword, Option.some.injEq, Prod.mk.injEq] at hword
  obtain ⟨rfl, hlength⟩ := hword
  obtain ⟨rfl, rfl⟩ := List.append_inj hslot hlength.symm
  obtain ⟨hspace, segments, past, datatype, tail, hafter, rfl, hsegments, hpast, htokens⟩ :=
    hfinds.valid.exists_segments htail
  obtain ⟨value, hvalue, hbare⟩ := hfinds.valid.tokens?_value hpast
  have hbehind := @Aligned.behind _ _ _ _ h
    (⟨space, slot.keyword, .word (String.ofList slot.keyword)⟩ :: segments) _ hsplit
    (by simp [Segment.text, hsegments]) hafter
  obtain ⟨halike, us, hus, hcleaned⟩ := ih hafter hbehind
  have hwhole : (⟨space, slot.keyword, .word (String.ofList slot.keyword)⟩ ::
      segments).flatMap Segment.text = space ++ slot.text := by
    simp [Segment.text, hsegments, TypedSlot.text, TypedSlot.tail]
  rw [hwhole, behind_append] at halike hus
  have hclean := h.cleanBehind_eq hsplit rfl rfl fun after hafter hne _ =>
    absurd (List.append_cancel_left ((List.append_nil space).trans hafter)).symm hne
  rw [Cleans, hclean, ← htext,
    cleanBehind_slot hfinds.begins slot.text_ne_nil hfinds.typed]
  generalize cleanBehind _ 0 after = left at halike hus
  -- what is kept of the slot begins with the same keyword and the same space
  have hkept : slot.kept ++ left =
      slot.keyword ++ (slot.space ++ (slot.past ++ slot.value ++ left)) := by
    simp [TypedSlot.kept]
  have hsame : Alike (slot.tail ++ after) (slot.space ++ (slot.past ++ slot.value ++ left)) := by
    obtain ⟨c, blanks, hcons⟩ := List.exists_cons_of_ne_nil hfinds.valid.space_ne
    rw [hcons] at hspace
    rw [TypedSlot.tail, hcons]
    simpa using Alike.behind [] (hspace c List.mem_cons_self) _ _
  rw [hkept]
  refine ⟨htext ▸ (hsame.append _).append _, .word (String.ofList slot.keyword) :: value ++ us, ?_, ?_⟩
  · rw [hsame.tokens? hgap hfirst hne, tokens?_spaces_append hspace, hbare _ (halike.stops hstops), hus]
    rfl
  · rw [List.map_cons, htokens, ← List.cons_append] at hcleaned
    rw [Split.cons, List.map_cons, List.map_append, htokens, ← List.cons_append, ← List.cons_append]
    exact .slot hholds hfinds.valid hpast hvalue hcleaned

end Step

/-- Cleaning changes the values of slots among the tokens of a text. -/
theorem Aligned.cleans {split : Split} (hsplit : segmentsOf cs = .ok split) (h : Aligned holds last cs) :
    Cleans holds last cs split := by
  -- a slot takes several tokens at a time, so the induction is on the length of the text
  obtain ⟨k, hk⟩ : ∃ k, cs.length ≤ k := ⟨_, Nat.le_refl _⟩
  induction k generalizing cs split last holds with
  | zero =>
      obtain rfl := List.eq_nil_of_length_eq_zero (Nat.le_zero.mp hk)
      rw [segmentsOf_nil] at hsplit
      cases hsplit
      exact h.cleans_blank segmentsOf_nil
  | succ k ih =>
      rcases segmentsOf_cases hsplit with
        rfl | ⟨space, lexeme, token, rest, tail, rfl, hgap, hfirst, hne, htail, rfl⟩
      · exact h.cleans_blank hsplit
      have hpos := List.length_pos_iff.mpr hne
      simp only [List.length_append] at hk
      by_cases hslot : ¬ (WindowSlot.behind last space).any isWordChar ∧ (typed? (lexeme ++ rest)).isSome
      · obtain ⟨hlast, htyped⟩ := hslot
        obtain ⟨kept, htyped⟩ := Option.isSome_iff_exists.mp htyped
        obtain ⟨slot, after, hfinds⟩ := exists_finds htyped hlast
        have hshorter := congrArg List.length (List.append_cancel_left hfinds.text)
        have hslot := List.length_pos_iff.mpr slot.text_ne_nil
        simp only [List.length_append] at hshorter
        exact h.cleans_slot hsplit hgap hfirst hne htail hfinds fun hafter hbehind =>
          ih hafter hbehind (by omega)
      · exact h.cleans_keep hsplit hgap hfirst hne htail
          (fun hlast => Option.not_isSome_iff_eq_none.mp fun htyped => hslot ⟨hlast, htyped⟩)
          fun hbehind => ih htail hbehind (by omega)

/-! ### Frames -/

/-- How far the declaration of a window has come, told from the tokens so far. -/
inductive Stage where
  | outside
  /-- Behind `FROM`, behind `NAMED` and behind `WINDOW`. -/
  | source
  | named
  | window
  /-- Behind the name of the window, behind `ON`, and behind `STREAM`. -/
  | id
  | on
  | stream
  /-- Behind the name of the stream. -/
  | bracket
  /-- Inside the brackets. -/
  | frame
  deriving DecidableEq

namespace Stage

/-- The stage behind a token that does not continue a declaration. -/
def restart (token : Token) : Stage := if token.isWord "FROM" then source else outside

/-- Whether a token names a window or a stream. -/
def isName : Token → Bool
  | .iri _ | .prefixed _ | .variable _ => true
  | _ => false

/-- The stage behind one more token. -/
def next (stage : Stage) (token : Token) : Stage :=
  match stage with
  | outside => restart token
  | source => if token.isWord "NAMED" then named else restart token
  | named => if token.isWord "WINDOW" then window else restart token
  | window => if isName token then id else restart token
  | id => if token.isWord "ON" then on else restart token
  | on =>
    if token.isWord "STREAM" then stream
    else if isName token then bracket else restart token
  | stream => if isName token then bracket else restart token
  | bracket => if token.isPunct "[" then frame else restart token
  | frame => if token.isPunct "]" then outside else frame

/-- The stage behind some tokens. -/
def after (stage : Stage) (ts : List Token) : Stage := ts.foldl next stage

/-- The tokens outside the frames of windows. -/
def outsideFrames (stage : Stage) : List Token → List Token
  | [] => []
  | t :: ts =>
    if stage = .frame ∧ ¬ t.isPunct "]" then outsideFrames stage ts
    else t :: outsideFrames (stage.next t) ts

theorem after_append (stage : Stage) (ts us : List Token) :
    stage.after (ts ++ us) = (stage.after ts).after us :=
  List.foldl_append

theorem next_frame {t : Token} (h : ¬ t.isPunct "]") : next frame t = frame := if_neg h

/-- A frame goes on as long as it is not closed. -/
theorem after_frame {ts : List Token} (h : ∀ t ∈ ts, ¬ t.isPunct "]") : after frame ts = frame := by
  induction ts with
  | nil => rfl
  | cons t ts ih =>
      obtain ⟨ht, hts⟩ := List.forall_mem_cons.mp h
      rw [after, List.foldl_cons, next_frame ht]
      exact ih hts

theorem outsideFrames_frame {ts : List Token} (h : ∀ t ∈ ts, ¬ t.isPunct "]") (us : List Token) :
    outsideFrames frame (ts ++ us) = outsideFrames frame us := by
  induction ts with
  | nil => rfl
  | cons t ts ih =>
      obtain ⟨ht, hts⟩ := List.forall_mem_cons.mp h
      rw [List.cons_append, outsideFrames, if_pos ⟨rfl, ht⟩, ih hts]

end Stage

/-- The tokens of a text of words and numbers do not close a frame. -/
theorem not_closing_of_plain {ts : List Token} (hts : tokens? cs = some ts)
    (h : ∀ c ∈ cs, isPlain c ∨ isSpace c) : ∀ t ∈ ts, ¬ t.isPunct "]" := by
  intro t ht hclosing
  obtain rfl := eq_punct_of_isPunct hclosing
  have hmem := subset_of_punct_mem hts ht (List.mem_singleton_self ']')
  exact absurd (h ']' hmem) (by decide)

/-- Tokens that were cleaned in frames are the same outside of them. -/
theorem Cleaned.outsideFrames {stage : Stage} {ts us : List Token} (h : Cleaned holds ts us)
    (hframe : ∀ front slot, holds front slot → stage.after front = .frame) :
    stage.outsideFrames us = stage.outsideFrames ts := by
  induction h generalizing stage with
  | nil => rfl
  | @keep holds t ts us _ ih =>
      simp only [Stage.outsideFrames]
      split
      · next hinside =>
        obtain ⟨rfl, ht⟩ := hinside
        exact ih fun front slot hslot => by
          have hafter := hframe (t :: front) slot hslot
          rwa [Stage.after, List.foldl_cons, Stage.next_frame ht] at hafter
      · exact congrArg _ (ih fun front slot hslot => hframe (t :: front) slot hslot)
  | @slot holds slot past value ts us datatype hslot hvalid hpast hvalue _ ih =>
      obtain rfl : stage = .frame := hframe [] slot hslot
      have hopen : ∀ t ∈ .word (String.ofList slot.keyword) :: past ++
          [slot.literal, .datatypeMark, .iri datatype], ¬ t.isPunct "]" := by
        generalize slot.past = front at hpast
        cases hpast <;> simp [Token.isPunct, TypedSlot.literal]
      have hbare : ∀ t ∈ .word (String.ofList slot.keyword) :: value, ¬ t.isPunct "]" :=
        List.forall_mem_cons.mpr ⟨by simp [Token.isPunct], not_closing_of_plain hvalue
          (List.forall_mem_append.mpr
            ⟨hpast.plain, fun c hc => .inl (isPlain_of_isBareChar (hvalid.value c hc))⟩)⟩
      rw [Stage.outsideFrames_frame hopen, Stage.outsideFrames_frame hbare]
      refine ih fun front slot' hslot' => ?_
      have hafter := hframe _ slot' hslot'
      rwa [Stage.after_append, Stage.after_frame hopen] at hafter

/-- Every slot that is found in a text has its own tokens in the frame of a window. -/
def InFrames (text : String) : Prop :=
  Aligned (fun front _ => Stage.after .outside front = .frame) none text.toList

/-- Cleaning a text whose slots stand in the frames of windows changes nothing outside of the frames. -/
theorem outsideFrames_clean {text : String} {ts : List Token} (hread : Token.read text = .ok ts)
    (hframes : InFrames text) : ∃ us, Token.read (clean text) = .ok us ∧
      Stage.outsideFrames .outside us = Stage.outsideFrames .outside ts := by
  obtain ⟨split, hsplit, rfl⟩ := read_eq_ok_iff_segmentsOf.mp hread
  obtain ⟨-, us, hus, hcleaned⟩ := Aligned.cleans hsplit hframes
  refine ⟨us, read_eq_ok_iff.mpr ?_, hcleaned.outsideFrames fun _ _ hframe => hframe⟩
  rw [clean, String.toList_ofList]
  exact hus

/-- A text in which one slot is found, in front of one of its tokens. -/
theorem aligned_of_once {split : Split} {kept : List Char} {k front n : Nat}
    (hsplit : segmentsOf cs = .ok split) (hk : k < split.1.length)
    (hfront : ((split.1.take k).flatMap Segment.text ++ split.1[k].gap).length = front)
    (honce : ∀ m < cs.length, m ≠ front → typed? (cs.drop m) = none)
    (htyped : typed? (cs.drop front) = some (kept, n)) (hstops : Stops runsOn (cs.drop (front + n)))
    (hholds : ∀ slot rest, cs.drop front = slot.text ++ rest → slot.Valid → slot.kept = kept →
      holds ((split.1.take k).map Segment.token) slot) : Aligned holds last cs := by
  intro before slot rest hfinds
  have hdrop : cs.drop before.length = slot.text ++ rest := by
    rw [hfinds.text, List.drop_left]
  have hlength : before.length = front := by
    by_contra hother
    have hlt : before.length < cs.length := by
      have hpos := List.length_pos_iff.mpr slot.text_ne_nil
      rw [hfinds.text, List.length_append, List.length_append]
      omega
    have hnone := honce _ hlt hother
    rw [hdrop, hfinds.typed] at hnone
    cases hnone
  rw [hlength] at hdrop
  rw [hdrop, hfinds.typed] at htyped
  obtain ⟨hkept, rfl⟩ := Prod.mk.inj (Option.some.inj htyped)
  rw [← List.drop_drop, hdrop, List.drop_left] at hstops
  have hpieces : split.1 = split.1.take k ++ split.1[k] :: split.1.drop (k + 1) := by
    rw [List.getElem_cons_drop, List.take_append_drop]
  refine ⟨hstops, _, _, _, split.2, by rw [hsplit, ← hpieces], ?_,
    hholds slot rest hdrop hfinds.valid hkept⟩
  have htext := (text_of_segmentsOf hsplit).trans hfinds.text
  rw [Split.text, hpieces] at htext
  simp only [List.flatMap_append, List.flatMap_cons, Segment.text, List.append_assoc] at htext
  rw [← List.append_assoc] at htext
  exact (List.append_inj htext (hfront.trans hlength.symm)).1.symm

/-- A query about values of five seconds in windows of five seconds. -/
def fiveSeconds : String :=
  "SELECT ?s FROM NAMED WINDOW <w> ON <s> " ++
    "[RANGE \"PT5S\"^^<http://www.w3.org/2001/XMLSchema#duration>] " ++
    "WHERE \x7b ?s <p> \"PT5S\"^^<http://www.w3.org/2001/XMLSchema#duration> \x7d"

/-- A value in a frame loses its datatype, the same value in a pattern keeps it, and behind a name that
ends as a keyword it loses it in a pattern, too. -/
theorem outsideFrames_clean_fiveSeconds :
    let typed : List Token := [.literal "\"PT5S\"", .datatypeMark,
      .iri "http://www.w3.org/2001/XMLSchema#duration"]
    (∃ ts us, Token.read fiveSeconds = .ok ts ∧ InFrames fiveSeconds ∧
      Token.read (clean fiveSeconds) = .ok us ∧
      Stage.outsideFrames .outside us = Stage.outsideFrames .outside ts ∧ typed <:+: us) ∧
    Token.read "?s ex:from \"PT5S\"^^<http://www.w3.org/2001/XMLSchema#duration>" =
      .ok (.variable "s" :: .prefixed "ex:from" :: typed) ∧
    Token.read (clean "?s ex:from \"PT5S\"^^<http://www.w3.org/2001/XMLSchema#duration>") =
      .ok [.variable "s", .prefixed "ex:from", .word "PT5S"] := by
  intro typed
  obtain ⟨split, hsplit, hk, hfront, hstage⟩ : ∃ split ∈ (segmentsOf fiveSeconds.toList).toOption,
      ∃ h : 9 < split.1.length,
        ((split.1.take 9).flatMap Segment.text ++ split.1[9].gap).length = 40 ∧
          Stage.after .outside ((split.1.take 9).map Segment.token) = .frame := by
    decide +kernel
  replace hsplit : segmentsOf fiveSeconds.toList = .ok split := by
    cases hsegments : segmentsOf fiveSeconds.toList with
    | error fault =>
        rw [hsegments] at hsplit
        cases hsplit
    | ok split' =>
        rw [hsegments] at hsplit
        exact congrArg _ (Option.some.inj hsplit)
  have hread := read_eq_ok_iff_segmentsOf.mpr ⟨split, hsplit, rfl⟩
  have hframes : InFrames fiveSeconds :=
    @aligned_of_once _ _ _ _ "RANGE PT5S".toList _ _ 57 hsplit hk hfront (by decide +kernel)
      (by decide +kernel) (stops_of_head? (c := ']') (by decide +kernel) (by decide)) fun _ _ _ _ _ => hstage
  obtain ⟨us, hus, hsame⟩ := outsideFrames_clean hread hframes
  refine ⟨⟨_, us, hread, hframes, hus, hsame, ?_⟩, by decide +kernel, by decide +kernel⟩
  have hinfix : ∃ us ∈ (Token.read (clean fiveSeconds)).toOption, typed <:+: us := by decide +kernel
  rw [hus] at hinfix
  obtain ⟨_, ⟨⟩, hinfix⟩ := hinfix
  exact hinfix

end WindowSlot

end StreamQuery
