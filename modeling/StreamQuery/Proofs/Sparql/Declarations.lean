import StreamQuery.Proofs.Iri
import StreamQuery.Proofs.Query.Reading
import StreamQuery.Proofs.Sparql.Recognizer
import StreamQuery.Query.Base

/-! # What the base language asks of declarations and selections

A query that is well formed declares plain labels only, and where it selects without a modifier, what it
selects does not begin with the keyword of an operator. Both follow from how its text is laid out: the
declarations stand on lines of their own, and behind them there is the keyword of its form.
-/

namespace StreamQuery

open Text Token

theorem toUpper_toLower (c : Char) : c.toLower.toUpper = c.toUpper := by
  apply Char.ext
  unfold Char.toUpper Char.toLower
  split
  · next hupper =>
    dsimp only
    split
    · next hlower =>
      split
      · next hboth =>
        simp [UInt32.le_iff_toNat_le] at hupper hboth
        omega
      · rw [← UInt32.toNat_inj]
        simp [UInt32.le_iff_toNat_le] at hupper hlower ⊢
        omega
    · next hlower =>
      simp [UInt32.le_iff_toNat_le] at hupper hlower
      omega
  · rfl

namespace Sparql

open Recognizer

variable {cs rest rest' : List Char} {value : Unit}

/-! ### Declarations one by one -/

theorem head?_of_takes_iriReference {iri : List Char} (h : Takes iriReference cs iri rest) :
    cs.head? = some '<' := by
  obtain ⟨text, behind, htake, -⟩ := h.of_bind
  have hfound := htake.of_take
  split at hfound
  · rfl
  · cases hfound

/-- Behind a reference there is what follows its bracket. -/
theorem rest_of_takes_iriReference {text iri : List Char} (htext : '>' ∉ text)
    (h : Takes iriReference ('<' :: (text ++ '>' :: cs)) iri rest) : rest = skipSpace false cs := by
  obtain ⟨inside, behind, htake, hresolve⟩ := h.of_bind
  have hfound := htake.of_take
  simp only [PrefixMapping.splitFirst_append htext] at hfound
  cases hfound
  obtain ⟨_, _, ⟨_, _, hnotes⟩, hunescape⟩ := hresolve.of_bind
  cases hnotes
  obtain ⟨_, _, hknown, hresolved⟩ := hunescape.of_bind
  obtain ⟨-, rfl⟩ := hknown.of_known
  obtain ⟨_, _, hknown', hend⟩ := hresolved.of_bind
  obtain ⟨-, rfl⟩ := hknown'.of_known
  obtain ⟨_, _, hspaces, hlast⟩ := hend.of_bind
  obtain ⟨-, rfl⟩ := hlast.of_pure
  exact hspaces.of_spaces

/-- The label of a prefix stands in front of the first colon. -/
theorem prefixLabel?_eq_some {label : String} (h : prefixLabel? cs = some (label, rest)) :
    cs = label.toList ++ ':' :: rest ∧ ':' ∉ label.toList ∧ label ≠ "_" := by
  unfold prefixLabel? at h
  extract_lets run starts at h
  have hcut : run ++ cs.drop run.length = cs :=
    List.prefix_iff_eq_append.mp (List.takeWhile_prefix _)
  split at h
  · next behind hbehind =>
    split at h
    · next hvalid =>
      cases h
      rw [hbehind] at hcut
      refine ⟨by rw [String.toList_ofList, hcut], fun hcolon => ?_, fun hblank => ?_⟩
      · rw [String.toList_ofList] at hcolon
        exact absurd (List.mem_takeWhile_imp hcolon) (by decide)
      · -- a label begins with a letter, and that of blank nodes does not
        have hrun : run = ['_'] := by
          rw [← String.toList_ofList (l := run), hblank]
          rfl
        have hletter : starts = isNameBase '_' := by
          unfold starts
          rw [hrun]
        rw [hletter] at hvalid
        exact absurd hvalid (by simp [show isNameBase '_' = false by decide])
    · cases h
  · cases h

/-- What begins with a word is taken only from a text that does. -/
theorem isSome_of_takes_word {α : Type} {text : String} {f : Unit → Recognizer α} {last : α}
    (h : Takes (word text >>= f) cs last rest) : (afterWord? text.toList cs).isSome := by
  obtain ⟨_, _, hword, -⟩ := h.of_bind
  obtain ⟨behind, hbehind, -⟩ := hword.of_word
  exact Option.isSome_of_eq_some hbehind

theorem not_takes_declaration (hbase : afterWord? "base".toList cs = none)
    (hstart : afterWord? "prefix".toList cs = none) : ¬ Takes declaration cs value rest := by
  intro h
  rcases Takes.of_orElse h with h | h
  · have hsome := isSome_of_takes_word h
    rw [hbase] at hsome
    cases hsome
  · have hsome := isSome_of_takes_word h
    rw [hstart] at hsome
    cases hsome

theorem afterWord?_append {word lower : List Char} (h : word.map Char.toLower = lower)
    (cs : List Char) : afterWord? lower (word ++ cs) = some cs := by
  induction word generalizing lower with
  | nil =>
      subst h
      rfl
  | cons c word ih =>
      subst h
      exact (if_pos rfl).trans (ih rfl)

theorem afterWord?_cons_of_ne {w c : Char} {ws : List Char} (h : c.toLower ≠ w) :
    afterWord? (w :: ws) (c :: cs) = none := if_neg h

theorem afterWord?_cons_eq_some {w c : Char} {ws : List Char}
    (h : afterWord? (w :: ws) (c :: cs) = some rest) : c.toLower = w ∧ afterWord? ws cs = some rest := by
  by_cases hc : c.toLower = w
  · rw [afterWord?, if_pos hc] at h
    exact ⟨hc, h⟩
  · rw [afterWord?_cons_of_ne hc] at h
    cases h

theorem head?_of_afterWord? {w : Char} {ws : List Char} (h : afterWord? (w :: ws) cs = some rest) :
    ∃ c ∈ cs.head?, c.toLower = w := by
  cases cs with
  | nil => cases h
  | cons c cs => exact ⟨c, rfl, (afterWord?_cons_eq_some h).1⟩

/-- A base on a line of its own is taken with the whole line. -/
theorem rest_of_takes_base {base : List Char} (hbase : '>' ∉ base)
    (h : Takes declaration ("BASE".toList ++ ' ' :: '<' :: (base ++ '>' :: '\n' :: cs)) value rest) :
    rest = skipSpace false cs := by
  rcases Takes.of_orElse h with h | h
  · obtain ⟨_, _, hword, hiri⟩ := h.of_bind
    obtain ⟨behind, hbehind, rfl⟩ := hword.of_word
    rw [afterWord?_append (by decide)] at hbehind
    cases hbehind
    obtain ⟨_, _, hreference, ⟨_, _, hnote⟩⟩ := hiri.of_bind
    cases hnote
    have hrest : rest = skipSpace false ('\n' :: cs) := rest_of_takes_iriReference hbase hreference
    exact hrest
  · exact nomatch isSome_of_takes_word h

theorem skipSpace_cons {c : Char} (h : c ∉ [' ', '\t', '\n', '\r', '#']) (cs : List Char) :
    skipSpace false (c :: cs) = c :: cs := by
  simp only [List.mem_cons, List.not_mem_nil, or_false, not_or] at h
  simp [skipSpace, h]

/-- A character that satisfies a test is none of those that do not. -/
theorem not_mem_of_test {p : Char → Bool} {c : Char} (h : p c) {others : List Char}
    (hothers : ∀ d ∈ others, p d = false) : c ∉ others := by
  intro hmem
  rw [hothers c hmem] at h
  cases h

theorem skipSpace_of_isLocalChar {c : Char} (h : Lexeme.isLocalChar c) (cs : List Char) :
    skipSpace false (c :: cs) = c :: cs := skipSpace_cons (not_mem_of_test h (by decide)) cs

/-- Only a label without colons stands in front of a bracket. -/
theorem not_mem_label {label behind : List Char} {taken : String}
    (hlabel : ∀ c ∈ label, Lexeme.isLocalChar c)
    (htaken : label ++ ':' :: cs = taken.toList ++ ':' :: behind) (hcolon : ':' ∉ taken.toList)
    (hopen : (skipSpace false behind).head? = some '<') : ':' ∉ label := by
  intro hmem
  obtain ⟨first, second, rfl, hfirst⟩ := List.eq_append_cons_of_mem hmem
  have hsplit : splitFirst ':' (first ++ ':' :: (second ++ ':' :: cs)) =
      (first, some (second ++ ':' :: cs)) := PrefixMapping.splitFirst_append hfirst
  rw [List.append_assoc, List.cons_append] at htaken
  rw [htaken, PrefixMapping.splitFirst_append hcolon] at hsplit
  obtain ⟨-, hbehind⟩ := Prod.mk.inj hsplit
  rw [Option.some_inj.mp hbehind] at hopen
  -- what follows is a character of the label or the colon behind it
  cases second with
  | nil => cases hopen
  | cons c second =>
      have hc := hlabel c (by simp)
      rw [List.cons_append, skipSpace_of_isLocalChar hc] at hopen
      have hbracket : c ∉ ['<'] := not_mem_of_test hc (by decide)
      exact hbracket (List.mem_singleton.mpr (Option.some_inj.mp hopen))

/-- A prefix on a line of its own is taken with the whole line, and only if its label is plain. -/
theorem rest_of_takes_prefix {label : String} {space : List Char}
    (hlabel : ∀ c ∈ label.toList, Lexeme.isLocalChar c) (hspace : '>' ∉ space)
    (h : Takes declaration ("PREFIX".toList ++ ' ' ::
      (label.toList ++ ':' :: ' ' :: '<' :: (space ++ '>' :: '\n' :: cs))) value rest) :
    PrefixMapping.IsPlainLabel label ∧ rest = skipSpace false cs := by
  rcases Takes.of_orElse h with h | h
  · exact nomatch isSome_of_takes_word h
  · obtain ⟨_, _, hword, htake⟩ := h.of_bind
    obtain ⟨behind, hbehind, rfl⟩ := hword.of_word
    rw [afterWord?_append (by decide)] at hbehind
    cases hbehind
    have hskip : skipSpace false
        (' ' :: (label.toList ++ ':' :: ' ' :: '<' :: (space ++ '>' :: '\n' :: cs))) =
          label.toList ++ ':' :: ' ' :: '<' :: (space ++ '>' :: '\n' :: cs) := by
      cases hcons : label.toList with
      | nil => rfl
      | cons c others => exact skipSpace_of_isLocalChar (hlabel c (by simp [hcons])) _
    rw [hskip] at htake
    obtain ⟨taken, left, hlabel?, hspaces⟩ := htake.of_bind
    obtain ⟨_, between, hgap, hiri⟩ := hspaces.of_bind
    obtain rfl := hgap.of_spaces
    obtain ⟨_, _, hreference, ⟨_, _, hnote⟩⟩ := hiri.of_bind
    cases hnote
    obtain ⟨htaken, hcolon, hblank⟩ := prefixLabel?_eq_some hlabel?.of_take
    have hplain : ':' ∉ label.toList :=
      not_mem_label hlabel htaken hcolon (head?_of_takes_iriReference hreference)
    have hsplit : splitFirst ':' (taken.toList ++ ':' :: left) = (taken.toList, some left) :=
      PrefixMapping.splitFirst_append hcolon
    rw [← htaken, PrefixMapping.splitFirst_append hplain] at hsplit
    obtain ⟨htext, hbehind⟩ := Prod.mk.inj hsplit
    rw [String.toList_inj] at htext
    rw [← Option.some_inj.mp hbehind] at hreference
    have hrest : rest = skipSpace false ('\n' :: cs) := rest_of_takes_iriReference hspace hreference
    exact ⟨⟨hplain, htext ▸ hblank⟩, hrest⟩

/-! ### All declarations -/

/-- A text that begins like the keyword of a form of query. -/
def BeginsForm (cs : List Char) : Prop := ∃ c ∈ cs.head?, c.toLower ∈ ['s', 'c', 'd', 'a']

theorem BeginsForm.not_takes (h : BeginsForm cs) : ¬ Takes declaration cs value rest := by
  obtain ⟨c, hc, hlower⟩ := h
  obtain ⟨others, rfl⟩ := List.head?_eq_some_iff.mp hc
  refine not_takes_declaration (afterWord?_cons_of_ne ?_) (afterWord?_cons_of_ne ?_)
  · intro heq
    rw [heq] at hlower
    exact absurd hlower (by decide)
  · intro heq
    rw [heq] at hlower
    exact absurd hlower (by decide)

/-- Declarations are taken up to the keyword of a form, or up to one that cannot be taken. -/
theorem eq_of_takesMany_form (hform : BeginsForm cs) (h : TakesMany declaration cs rest) :
    rest = cs := by
  rcases Relation.ReflTransGen.cases_head h with rfl | ⟨between, ⟨value, htakes⟩, -⟩
  · rfl
  · exact absurd htakes hform.not_takes

/-- In front of a form, what begins like no form begins with a declaration. -/
theorem exists_takes_of_takesMany (hrest : BeginsForm rest) (hcs : ¬ BeginsForm cs)
    (h : TakesMany declaration cs rest) :
    ∃ value between, Takes declaration cs value between ∧ TakesMany declaration between rest := by
  rcases Relation.ReflTransGen.cases_head h with rfl | ⟨between, ⟨value, htakes⟩, hmany⟩
  · exact absurd hrest hcs
  · exact ⟨value, between, htakes, hmany⟩

theorem not_beginsForm {c : Char} (h : c.toLower ∉ ['s', 'c', 'd', 'a']) (cs : List Char) :
    ¬ BeginsForm (c :: cs) := by
  rintro ⟨_, hc, hlower⟩
  cases hc
  exact h hlower

/-- A declared label on a line of its own. -/
def prefixLine (entry : String × String) : List Char :=
  "PREFIX".toList ++ ' ' :: (entry.1.toList ++ ':' :: ' ' :: '<' :: (entry.2.toList ++ ['>', '\n']))

theorem plain_of_takesMany_prefixes {entries : List (String × String)}
    (hlabels : ∀ entry ∈ entries, ∀ c ∈ entry.1.toList, Lexeme.isLocalChar c)
    (hspaces : ∀ entry ∈ entries, '>' ∉ entry.2.toList)
    (hform : BeginsForm (skipSpace false cs)) (hrest : BeginsForm rest)
    (h : TakesMany declaration (skipSpace false (entries.flatMap prefixLine ++ cs)) rest) :
    (∀ entry ∈ entries, PrefixMapping.IsPlainLabel entry.1) ∧ rest = skipSpace false cs := by
  induction entries with
  | nil => exact ⟨nofun, eq_of_takesMany_form hform h⟩
  | cons entry entries ih =>
      obtain ⟨hlabel, hlabels⟩ := List.forall_mem_cons.mp hlabels
      obtain ⟨hspace, hspaces⟩ := List.forall_mem_cons.mp hspaces
      have hline : skipSpace false ((entry :: entries).flatMap prefixLine ++ cs) =
          "PREFIX".toList ++ ' ' :: (entry.1.toList ++ ':' :: ' ' :: '<' ::
            (entry.2.toList ++ '>' :: '\n' :: (entries.flatMap prefixLine ++ cs))) := by
        rw [List.flatMap_cons, prefixLine]
        simp only [List.append_assoc, List.cons_append, List.nil_append]
        rfl
      rw [hline] at h
      obtain ⟨value, between, htakes, hmany⟩ :=
        exists_takes_of_takesMany hrest (not_beginsForm (by decide) _) h
      obtain ⟨hplain, rfl⟩ := rest_of_takes_prefix hlabel hspace htakes
      obtain ⟨hplains, heq⟩ := ih hlabels hspaces hmany
      exact ⟨List.forall_mem_cons.mpr ⟨hplain, hplains⟩, heq⟩

/-- A base on a line of its own. -/
def baseLine (base : String) : List Char :=
  "BASE".toList ++ ' ' :: '<' :: (base.toList ++ ['>', '\n'])

theorem takesMany_of_base {base : Option String} (hbase : ∀ text ∈ base, '>' ∉ text.toList)
    (hrest : BeginsForm rest)
    (h : TakesMany declaration (skipSpace false (base.toList.flatMap baseLine ++ cs)) rest) :
    TakesMany declaration (skipSpace false cs) rest := by
  cases base with
  | none => exact h
  | some text =>
      have hline : skipSpace false ((some text).toList.flatMap baseLine ++ cs) =
          "BASE".toList ++ ' ' :: '<' :: (text.toList ++ '>' :: '\n' :: cs) := by
        simp only [Option.toList_some, List.flatMap_singleton, baseLine, List.append_assoc,
          List.cons_append, List.nil_append]
        rfl
      rw [hline] at h
      obtain ⟨value, between, htakes, hmany⟩ :=
        exists_takes_of_takesMany hrest (not_beginsForm (by decide) _) h
      rwa [rest_of_takes_base (hbase text rfl) htakes] at hmany

/-! ### Selections -/

theorem head?_of_after? {mark : Char} (h : after? [mark] cs = some rest) : cs.head? = some mark := by
  obtain rfl := Lexeme.after?_eq_some_iff.mp h
  rfl

theorem head?_of_takes_variableTerm {name : String} (h : Takes variableTerm cs name rest) :
    ∃ c ∈ cs.head?, c ∈ ['?', '$', '(', '*'] := by
  obtain ⟨_, _, hmark, -⟩ := h.of_bind
  rcases hmark.of_orElse with hmark | hmark
  · exact ⟨'?', head?_of_after? hmark.of_exactly, by decide⟩
  · exact ⟨'$', head?_of_after? hmark.of_exactly, by decide⟩

/-- A selection begins with a modifier, or with a variable, a bracket or a star. -/
theorem head?_of_takes_selection {group : Recognizer Unit} {depth : Nat} {items : Selection}
    (h : Takes (selection group depth) cs items rest) :
    (∃ word ∈ ["distinct", "reduced"], (afterWord? word.toList cs).isSome) ∨
      ∃ c ∈ cs.head?, c ∈ ['?', '$', '(', '*'] := by
  obtain ⟨_, _, ⟨_, _, hnote⟩, hmodifier⟩ := h.of_bind
  cases hnote
  obtain ⟨_, _, hdiscard, hitems⟩ := hmodifier.of_bind
  obtain ⟨found, hmaybe⟩ := hdiscard.of_discard
  rcases hmaybe.of_maybe with ⟨_, rfl, hword⟩ | ⟨rfl, rfl⟩
  · left
    rcases hword.of_orElse with hword | hword
    · obtain ⟨behind, hbehind, -⟩ := hword.of_word
      exact ⟨"distinct", by decide, by rw [hbehind]; rfl⟩
    · obtain ⟨behind, hbehind, -⟩ := hword.of_word
      exact ⟨"reduced", by decide, by rw [hbehind]; rfl⟩
  · right
    rcases Takes.of_orElse hitems with hstar | hmany
    · obtain ⟨_, _, hsign, -⟩ := hstar.of_bind
      obtain ⟨behind, hbehind, -⟩ := hsign.of_sign
      exact ⟨'*', head?_of_after? hbehind, by decide⟩
    · obtain ⟨_, _, hmany, -⟩ := hmany.of_bind
      obtain ⟨_, _, hitem, -⟩ := hmany.of_bind
      rcases hitem.of_orElse with hvariable | hbracketed
      · obtain ⟨_, _, hvariable, -⟩ := hvariable.of_bind
        exact head?_of_takes_variableTerm hvariable
      · obtain ⟨_, _, hsign, -⟩ := hbracketed.of_bind
        obtain ⟨behind, hbehind, -⟩ := hsign.of_sign
        exact ⟨'(', head?_of_after? hbehind, by decide⟩

/-- What begins with a keyword begins with its first letter. -/
theorem head?_of_takes_word {α : Type} {word : String} {letters : List Char}
    (hword : word.toList.head?.any (· ∈ letters)) {f : Unit → Recognizer α} {last : α}
    (h : Takes (Recognizer.word word >>= f) cs last rest) :
    ∃ c ∈ cs.head?, c.toLower ∈ letters := by
  obtain ⟨_, _, hfirst, -⟩ := h.of_bind
  obtain ⟨behind, hbehind, -⟩ := hfirst.of_word
  obtain ⟨w, hw, hletter⟩ := (Option.any_eq_true _ _).mp hword
  obtain ⟨ws, hws⟩ := List.head?_eq_some_iff.mp hw
  rw [hws] at hbehind
  obtain ⟨c, hc, rfl⟩ := head?_of_afterWord? hbehind
  exact ⟨c, hc, of_decide_eq_true hletter⟩

/-- What a query is taken as, behind its declarations. -/
theorem exists_of_takes_query {depth : Nat} (h : Takes (query depth) cs value rest) :
    ∃ behind, TakesMany declaration (skipSpace false cs) behind ∧ BeginsForm behind ∧
      ∀ last, afterWord? "select".toList behind = some last →
        ∃ group items rest', Takes (selection group depth) (skipSpace false last) items rest' := by
  obtain ⟨_, _, hspaces, hprologue⟩ := h.of_bind
  obtain rfl := hspaces.of_spaces
  obtain ⟨_, behind, hdiscard, hforms⟩ := hprologue.of_bind
  obtain ⟨_, hmany⟩ := hdiscard.of_discard
  refine ⟨behind, hmany.of_many, ?_⟩
  rcases Takes.of_orElse hforms with hselect | hforms
  · obtain ⟨_, _, hword, hselection⟩ := hselect.of_bind
    obtain ⟨last, hlast, rfl⟩ := hword.of_word
    obtain ⟨items, rest', htakes, -⟩ := hselection.of_bind
    obtain ⟨c, hc, hlower⟩ := head?_of_afterWord? hlast
    refine ⟨⟨c, hc, by rw [hlower]; decide⟩, fun last' hlast' => ?_⟩
    rw [hlast] at hlast'
    cases hlast'
    exact ⟨_, items, rest', htakes⟩
  · -- no other form begins with the first letter of a selection
    obtain ⟨c, hc, hlower⟩ : ∃ c ∈ behind.head?, c.toLower ∈ ['c', 'd', 'a'] := by
      rcases hforms.of_orElse with hconstruct | hforms
      · rcases Takes.of_orElse hconstruct with h | h <;> exact head?_of_takes_word (by decide) h
      rcases hforms.of_orElse with hdescribe | hask
      · rcases Takes.of_orElse hdescribe with h | h <;> exact head?_of_takes_word (by decide) h
      · exact head?_of_takes_word (by decide) hask
    refine ⟨⟨c, hc, List.mem_cons_of_mem _ hlower⟩, fun last hlast => ?_⟩
    obtain ⟨c', hc', hlower'⟩ := head?_of_afterWord? hlast
    cases hc.symm.trans hc'
    rw [hlower'] at hlower
    exact absurd hlower (by decide)

end Sparql

end StreamQuery
