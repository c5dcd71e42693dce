import StreamQuery.Proofs.Except
import StreamQuery.Proofs.Window
import StreamQuery.Window.Combine

/-! # Windows that cover others

The windows over a stream are combined one after another. The window that comes of it covers every one
of them: each of its slots holds what the slot of the other window holds, or a value that reaches at
least as far. Covering is transitive, so that it is kept from the first window to the last.
-/

namespace StreamQuery

theorem Duration.compare_eq_compare_totalNanos (d e : Duration) :
    compare d e = compare d.totalNanos e.totalNanos := by
  change (compare d.seconds e.seconds).then (compare d.nanos e.nanos) = _
  have hd := d.nanos_lt
  have he := e.nanos_lt
  rcases Nat.lt_trichotomy d.seconds e.seconds with hlt | heq | hgt
  · have htotal : d.totalNanos < e.totalNanos := by
      unfold totalNanos nanosPerSecond at *
      omega
    rw [Nat.compare_eq_lt.mpr hlt, Nat.compare_eq_lt.mpr htotal]
    rfl
  · rw [totalNanos, totalNanos, heq, Nat.compare_eq_eq.mpr rfl, Ordering.eq_then]
    simp only [Nat.compare_eq_ite_lt, Nat.add_lt_add_iff_left]
  · have htotal : e.totalNanos < d.totalNanos := by
      unfold totalNanos nanosPerSecond at *
      omega
    rw [Nat.compare_eq_gt.mpr hgt, Nat.compare_eq_gt.mpr htotal]
    rfl

/-- Of two values, the second one reaches at least as far as the first. -/
def Widening.Reaches : Widening → Nat → Nat → Prop
  | larger, m, n => m ≤ n
  | smaller, m, n => n ≤ m

theorem Widening.Reaches.trans {widening : Widening} {l m n : Nat} (h : widening.Reaches l m)
    (h' : widening.Reaches m n) : widening.Reaches l n := by
  cases widening with
  | larger => exact Nat.le_trans h h'
  | smaller => exact Nat.le_trans h' h

namespace Scalar

/-- What a bound term measures, in nanoseconds or in items. -/
def value? (scalar : Scalar) (term : Term) : Option Nat :=
  match scalar with
  | duration =>
    match term.duration? with
    | some (.ok d) => some d.totalNanos
    | _ => none
  | count => term.count?

/-- What covers a term in a slot: the term itself, or a bound value that reaches at least as far. A
variable is covered by nothing but itself, and covers nothing else. -/
inductive Covers (scalar : Scalar) (widening : Widening) (term : Term) : Term → Prop where
  | same : Covers scalar widening term term
  | wider {covering : Term} {m n : Nat} (hterm : scalar.value? term = some m)
      (hcovering : scalar.value? covering = some n) (h : widening.Reaches m n) :
      Covers scalar widening term covering

variable {scalar : Scalar} {widening : Widening} {minStep : Duration} {stream : Term}
  {field : String} {a b c : Term}

theorem value?_of_isVariable (h : a.isVariable) : scalar.value? a = none := by
  cases a with
  | «variable» v => cases scalar <;> rfl
  | _ => cases h

theorem Covers.trans (hab : scalar.Covers widening a b) (hbc : scalar.Covers widening b c) :
    scalar.Covers widening a c := by
  cases hab with
  | same => exact hbc
  | wider ha hb hreach =>
      cases hbc with
      | same => exact .wider ha hb hreach
      | wider hb' hc hreach' =>
          obtain rfl := Option.some_inj.mp (hb.symm.trans hb')
          exact .wider ha hc (hreach.trans hreach')

/-- On bound values, to cover is to reach at least as far. -/
theorem Covers.reaches {m n : Nat} (h : scalar.Covers widening a b) (ha : scalar.value? a = some m)
    (hb : scalar.value? b = some n) : widening.Reaches m n := by
  cases h with
  | same =>
      obtain rfl := Option.some_inj.mp (ha.symm.trans hb)
      cases widening <;> exact Nat.le_refl _
  | wider ha' hb' hreach =>
      obtain rfl := Option.some_inj.mp (ha.symm.trans ha')
      obtain rfl := Option.some_inj.mp (hb.symm.trans hb')
      exact hreach

/-- Where one of two slots holds a variable, the other one holds the same. -/
theorem Covers.eq_of_isVariable (h : scalar.Covers widening a b)
    (hvariable : a.isVariable ∨ b.isVariable) : b = a := by
  cases h with
  | same => rfl
  | wider ha hb _ =>
      rcases hvariable with hvariable | hvariable
      · rw [value?_of_isVariable hvariable] at ha
        cases ha
      · rw [value?_of_isVariable hvariable] at hb
        cases hb

theorem value?_of_readDuration {d : Duration} (h : readDuration stream field a = .ok d) :
    duration.value? a = some d.totalNanos := by
  unfold readDuration at h
  split at h
  · next hread =>
    cases h
    rw [value?, hread]
  · cases h
  · cases h

theorem value?_of_readCount {n : Nat} (h : readCount stream field a = .ok n) :
    count.value? a = some n := by
  unfold readCount at h
  split at h
  · next hread =>
    cases h
    exact hread
  · cases h

theorem compareTerms_spec {ordering : Ordering}
    (h : scalar.compareTerms stream field a b = .ok ordering) :
    ∃ m n, scalar.value? a = some m ∧ scalar.value? b = some n ∧ ordering = compare m n := by
  cases scalar with
  | duration =>
      obtain ⟨d, hd, h⟩ := bind_eq_ok_iff.mp h
      obtain ⟨e, he, h⟩ := bind_eq_ok_iff.mp h
      cases h
      exact ⟨_, _, value?_of_readDuration hd, value?_of_readDuration he,
        Duration.compare_eq_compare_totalNanos d e⟩
  | count =>
      obtain ⟨m, hm, h⟩ := bind_eq_ok_iff.mp h
      obtain ⟨n, hn, h⟩ := bind_eq_ok_iff.mp h
      cases h
      exact ⟨m, n, value?_of_readCount hm, value?_of_readCount hn, rfl⟩

/-- What two terms in a slot are widened to covers both of them. -/
theorem widen_covers (h : scalar.widen widening stream field a b = .ok c) :
    scalar.Covers widening a c ∧ scalar.Covers widening b c := by
  unfold widen at h
  split at h
  · next heq =>
    cases h
    subst heq
    exact ⟨.same, .same⟩
  split at h
  · cases h
  obtain ⟨ordering, hordering, h⟩ := bind_eq_ok_iff.mp h
  obtain ⟨m, n, ha, hb, rfl⟩ := compareTerms_spec hordering
  -- one of the two is kept, and it reaches as far as the other one
  have hkept : c = a ∧ widening.Reaches n m ∨ c = b ∧ widening.Reaches m n := by
    cases widening with
    | larger =>
        by_cases hlt : m < n
        · rw [if_pos (Nat.compare_eq_lt.mpr hlt)] at h
          cases h
          exact .inr ⟨rfl, Nat.le_of_lt hlt⟩
        · rw [if_neg (mt Nat.compare_eq_lt.mp hlt)] at h
          cases h
          exact .inl ⟨rfl, Nat.le_of_not_lt hlt⟩
    | smaller =>
        by_cases hgt : n < m
        · rw [if_pos (Nat.compare_eq_gt.mpr hgt)] at h
          cases h
          exact .inr ⟨rfl, Nat.le_of_lt hgt⟩
        · rw [if_neg (mt Nat.compare_eq_gt.mp hgt)] at h
          cases h
          exact .inl ⟨rfl, Nat.le_of_not_lt hgt⟩
  rcases hkept with ⟨rfl, hreach⟩ | ⟨rfl, hreach⟩
  · exact ⟨.same, .wider hb ha hreach⟩
  · exact ⟨.wider ha hb hreach, .same⟩

/-- What covers a step: no step covers the lack of one, and a step that covers the smallest step covers
it as well. -/
inductive CoversStep (scalar : Scalar) (minStep : Duration) : Option Term → Option Term → Prop where
  | absent : CoversStep scalar minStep none none
  | present {step : Option Term} {covering : Term}
      (h : scalar.Covers .smaller (step.getD (scalar.smallestStep minStep)) covering) :
      CoversStep scalar minStep step (some covering)

theorem CoversStep.refl (step : Option Term) : scalar.CoversStep minStep step step := by
  cases step with
  | none => exact .absent
  | some term => exact .present .same

theorem CoversStep.trans {step between covering : Option Term}
    (h : scalar.CoversStep minStep step between)
    (h' : scalar.CoversStep minStep between covering) : scalar.CoversStep minStep step covering := by
  cases h with
  | absent => exact h'
  | present hcovers =>
      cases h' with
      | present hcovers' => exact .present (hcovers.trans hcovers')

theorem widenStep_covers {step step' covering : Option Term}
    (h : scalar.widenStep minStep stream step step' = .ok covering) :
    scalar.CoversStep minStep step covering ∧ scalar.CoversStep minStep step' covering := by
  unfold widenStep at h
  split at h
  · cases h
    exact ⟨.absent, .absent⟩
  all_goals
    obtain ⟨covering, hwiden, rfl⟩ := map_eq_ok_iff.mp h
    obtain ⟨hleft, hright⟩ := widen_covers hwiden
  · exact ⟨.present hleft, .present hright⟩
  · exact ⟨.present hleft, .present hright⟩
  · exact ⟨.present hright, .present hleft⟩

end Scalar

/-- What covers a frame: a frame of the same kind that reaches at least as far on both sides. -/
inductive Frame.Covers : Frame → Frame → Prop where
  | logical {range range' : Term} (hrange : Scalar.duration.Covers .larger range range') :
      Covers (.logical range) (.logical range')
  | past {start start' stop stop' : Term} (hstart : Scalar.duration.Covers .larger start start')
      (hstop : Scalar.duration.Covers .smaller stop stop') :
      Covers (.past start stop) (.past start' stop')
  | physical {items items' : Term} (hitems : Scalar.count.Covers .larger items items') :
      Covers (.physical items) (.physical items')

namespace Frame

variable {a b c : Frame}

theorem Covers.refl (a : Frame) : a.Covers a := by
  cases a with
  | logical range => exact .logical .same
  | past start stop => exact .past .same .same
  | physical items => exact .physical .same

theorem Covers.trans (h : a.Covers b) (h' : b.Covers c) : a.Covers c := by
  cases h with
  | logical hrange =>
      cases h' with
      | logical hrange' => exact .logical (hrange.trans hrange')
  | past hstart hstop =>
      cases h' with
      | past hstart' hstop' => exact .past (hstart.trans hstart') (hstop.trans hstop')
  | physical hitems =>
      cases h' with
      | physical hitems' => exact .physical (hitems.trans hitems')

theorem Covers.kind_eq (h : a.Covers b) : b.kind = a.kind := by cases h <;> rfl

end Frame

namespace Window

variable {minStep : Duration} {stream : Term} {a b c : Window} {windows group : List Window}

/-- What covers a window: a window over the same stream, of the same kind, that holds at least as much
and looks again at least as often. -/
structure Covers (minStep : Duration) (window covering : Window) : Prop where
  stream : covering.stream = window.stream
  frame : window.frame.Covers covering.frame
  step : (scalarOfKind window.kind).CoversStep minStep window.step covering.step

theorem Covers.kind_eq (h : Covers minStep a b) : b.kind = a.kind := h.frame.kind_eq

theorem Covers.refl (minStep : Duration) (a : Window) : Covers minStep a a :=
  ⟨rfl, .refl _, .refl _⟩

theorem Covers.trans (h : Covers minStep a b) (h' : Covers minStep b c) : Covers minStep a c := by
  refine ⟨h'.stream.trans h.stream, h.frame.trans h'.frame, h.step.trans ?_⟩
  rw [← h.kind_eq]
  exact h'.step

theorem combineFrames_covers {frame frame' covering : Frame}
    (h : combineFrames stream frame frame' = .ok covering) :
    frame.Covers covering ∧ frame'.Covers covering := by
  unfold combineFrames at h
  split at h
  · obtain ⟨range, hrange, rfl⟩ := map_eq_ok_iff.mp h
    obtain ⟨hleft, hright⟩ := Scalar.widen_covers hrange
    exact ⟨.logical hleft, .logical hright⟩
  · obtain ⟨items, hitems, rfl⟩ := map_eq_ok_iff.mp h
    obtain ⟨hleft, hright⟩ := Scalar.widen_covers hitems
    exact ⟨.physical hleft, .physical hright⟩
  · obtain ⟨start, hstart, h⟩ := bind_eq_ok_iff.mp h
    obtain ⟨stop, hstop, h⟩ := bind_eq_ok_iff.mp h
    cases h
    obtain ⟨hleft, hright⟩ := Scalar.widen_covers hstart
    obtain ⟨hleft', hright'⟩ := Scalar.widen_covers hstop
    exact ⟨.past hleft hleft', .past hright hright'⟩
  · cases h

/-- The window of a combination covers both windows. -/
theorem combine_covers (h : combine minStep a b = .ok c) (hstream : b.stream = a.stream) :
    Covers minStep a c ∧ Covers minStep b c := by
  unfold combine at h
  obtain ⟨frame, hframe, h⟩ := bind_eq_ok_iff.mp h
  obtain ⟨step, hstep, h⟩ := bind_eq_ok_iff.mp h
  cases h
  obtain ⟨hleft, hright⟩ := combineFrames_covers hframe
  obtain ⟨hstepleft, hstepright⟩ := Scalar.widenStep_covers hstep
  have hkind : b.kind = a.kind := hright.kind_eq.symm.trans hleft.kind_eq
  refine ⟨⟨rfl, hleft, hstepleft⟩, ⟨hstream.symm, hright, ?_⟩⟩
  rw [hkind]
  exact hstepright

theorem foldlM_combine_covers (h : group.foldlM (combine minStep) a = .ok c)
    (hstream : ∀ window ∈ group, window.stream = a.stream) :
    ∀ window ∈ a :: group, Covers minStep window c := by
  -- what is combined so far covers the windows before it, and the end covers what is combined so far
  induction group generalizing a with
  | nil =>
      cases h
      exact List.forall_mem_singleton.mpr (.refl minStep c)
  | cons next rest ih =>
      obtain ⟨between, hbetween, hrest⟩ := bind_eq_ok_iff.mp h
      obtain ⟨hnext, hstreams⟩ := List.forall_mem_cons.mp hstream
      obtain ⟨hfirst, hsecond⟩ := combine_covers hbetween hnext
      have hall := ih hrest fun window hwindow =>
        (hstreams window hwindow).trans hfirst.stream.symm
      obtain ⟨hlast, hothers⟩ := List.forall_mem_cons.mp hall
      exact List.forall_mem_cons.mpr ⟨hfirst.trans hlast,
        List.forall_mem_cons.mpr ⟨hsecond.trans hlast, hothers⟩⟩

/-- The window of a group covers every window of the group. -/
theorem combineAll_covers (h : combineAll minStep group = .ok c)
    (hstream : ∀ window ∈ group, window.stream = stream) :
    ∀ window ∈ group, Covers minStep window c := by
  cases group with
  | nil => simp
  | cons first rest =>
      rw [combineAll] at h
      obtain ⟨hfirst, hrest⟩ := List.forall_mem_cons.mp hstream
      exact foldlM_combine_covers h fun window hwindow =>
        (hrest window hwindow).trans hfirst.symm

/-! ### Groups -/

/-- Windows that are grouped by their streams: every window is in the group of its stream, and there
is one group, with a window in it, for every stream. -/
structure Grouped (windows : List Window) (groups : List (Term × List Window)) : Prop where
  streams : (groups.map Prod.fst).Nodup
  members : ∀ group ∈ groups, ∀ window ∈ group.2, window.stream = group.1
  nonempty : ∀ group ∈ groups, group.2 ≠ []
  perm : (groups.flatMap Prod.snd).Perm windows

theorem Grouped.nil : Grouped [] [] := ⟨List.nodup_nil, nofun, nofun, .refl _⟩

variable {groups : List (Term × List Window)}

/-- A group that a window was added to is as before, or is the group of the stream of the window. -/
theorem mem_addToGroups {window : Window} {group : Term × List Window}
    (h : group ∈ addToGroups window groups) :
    group ∈ groups ∨ ∃ members, group = (window.stream, members ++ [window]) ∧
      (members = [] ∨ (window.stream, members) ∈ groups) := by
  induction groups with
  | nil => exact .inr ⟨[], by simpa [addToGroups] using h, .inl rfl⟩
  | cons head groups ih =>
      obtain ⟨key, members⟩ := head
      rw [addToGroups] at h
      split at h
      · next heq =>
        rcases List.mem_cons.mp h with rfl | h
        · exact .inr ⟨members, by rw [heq], .inr (by rw [← heq]; exact List.mem_cons_self)⟩
        · exact .inl (List.mem_cons_of_mem _ h)
      · rcases List.mem_cons.mp h with rfl | h
        · exact .inl List.mem_cons_self
        · refine (ih h).imp (List.mem_cons_of_mem _) ?_
          rintro ⟨others, rfl, hothers⟩
          exact ⟨others, rfl, hothers.imp_right (List.mem_cons_of_mem _)⟩

/-- Adding a window does not change which streams have a group, save that of the window. -/
theorem nodup_addToGroups (window : Window) (h : (groups.map Prod.fst).Nodup) :
    ((addToGroups window groups).map Prod.fst).Nodup := by
  induction groups with
  | nil => simp [addToGroups]
  | cons head groups ih =>
      obtain ⟨key, members⟩ := head
      obtain ⟨hkey, hgroups⟩ := List.nodup_cons.mp h
      rw [addToGroups]
      split
      · exact h
      · next hne =>
        refine List.nodup_cons.mpr ⟨fun hmem => ?_, ih hgroups⟩
        obtain ⟨group, hgroup, rfl⟩ := List.mem_map.mp hmem
        rcases mem_addToGroups hgroup with hgroup | ⟨others, rfl, -⟩
        · exact hkey (List.mem_map.mpr ⟨group, hgroup, rfl⟩)
        · exact hne rfl

theorem flatMap_addToGroups_perm (window : Window) (groups : List (Term × List Window)) :
    ((addToGroups window groups).flatMap Prod.snd).Perm (window :: groups.flatMap Prod.snd) := by
  induction groups with
  | nil => exact .refl _
  | cons group groups ih =>
      obtain ⟨key, members⟩ := group
      rw [addToGroups]
      split
      · rw [List.flatMap_cons, List.flatMap_cons, List.append_assoc]
        exact List.perm_middle
      · rw [List.flatMap_cons, List.flatMap_cons]
        exact (ih.append_left members).trans List.perm_middle

theorem Grouped.add (h : Grouped windows groups) (window : Window) :
    Grouped (window :: windows) (addToGroups window groups) where
  streams := nodup_addToGroups window h.streams
  members group hgroup := by
    rcases mem_addToGroups hgroup with hgroup | ⟨members, rfl, hmembers⟩
    · exact h.members group hgroup
    · refine List.forall_mem_append.mpr ⟨?_, by simp⟩
      rcases hmembers with rfl | hmembers
      · simp
      · exact h.members _ hmembers
  nonempty group hgroup := by
    rcases mem_addToGroups hgroup with hgroup | ⟨members, rfl, -⟩
    · exact h.nonempty group hgroup
    · simp
  perm := (flatMap_addToGroups_perm window groups).trans (h.perm.cons window)

theorem Grouped.foldl (h : Grouped windows groups) (others : List Window) :
    Grouped (others ++ windows)
      (others.foldl (fun groups window => addToGroups window groups) groups) := by
  induction others generalizing windows groups with
  | nil => exact h
  | cons window others ih =>
      have hrest := ih (h.add window)
      exact ⟨hrest.streams, hrest.members, hrest.nonempty, hrest.perm.trans List.perm_middle⟩

/-- Windows are grouped by their streams, none is lost and none is added. -/
theorem grouped_groupByStream (windows : List Window) : Grouped windows (groupByStream windows) := by
  have hgrouped := Grouped.nil.foldl (sorted windows)
  rw [List.append_nil] at hgrouped
  exact ⟨hgrouped.streams, hgrouped.members, hgrouped.nonempty,
    hgrouped.perm.trans (sorted_perm windows)⟩

end Window

end StreamQuery
