import StreamQuery.Query.Change
import StreamQuery.Proofs.Codec.Survival

/-! # Windows of changing queries

Wherever a query comes from and whatever it is told since, its windows have names of their own. So a
name picks out one window at most, and queries with the same set of windows have the same windows in
their order.
-/

namespace StreamQuery

namespace Query

variable {query : Query} {window : Window}

/-- A declaration in place is the declaration of a window. If it fails, it leaves the query alone. -/
theorem change_addWindow (query : Query) (window : Window) :
    query.change (.addWindow window) =
      match query.addWindow window with
      | .ok next => (.ok (), next)
      | .error error => (.error error, query) := by
  rw [change, Changing.steps, Changing.addWindow, run_get_bind, addWindow]
  split
  · rfl
  · rfl

theorem change_addWindow_of_used {other : Window} (hother : other ∈ query.windows)
    (hid : other.id = window.id) :
    query.change (.addWindow window) = (.error (.duplicateWindow window.id.text), query) := by
  have hused : (query.window? window.id).isSome :=
    List.find?_isSome.mpr ⟨other, hother, decide_eq_true hid⟩
  rw [change_addWindow, addWindow, if_pos hused]

theorem change_addWindow_of_new (h : ∀ other ∈ query.windows, other.id ≠ window.id) :
    query.change (.addWindow window) =
      (.ok (), { query with windows := query.windows ++ [window] }) := by
  have hnew : window.id ∉ query.windows.map Window.id := by
    rw [List.mem_map]
    rintro ⟨other, hother, hid⟩
    exact h other hother hid
  rw [change_addWindow, addWindow_of_not_mem hnew]

/-- A change keeps the names of windows apart. -/
theorem nodup_change (hids : (query.windows.map Window.id).Nodup) (change : QueryChange) :
    ((query.change change).2.windows.map Window.id).Nodup := by
  cases change with
  | addWindow window =>
      rw [change_addWindow]
      split
      · next hadd => exact nodup_addWindow hadd hids
      · exact hids
  | setOutputStream stream operator => exact hids
  | setOutputOperator operator => exact hids

/-- Where queries come from: a text, whether or not its base query is checked, or a node of a graph. -/
inductive Source : Query → Prop where
  | read {text : String} {query : Query} (h : Query.read text = .ok query) : Source query
  | parse {text : String} {query : Query} (h : Query.parse text = .ok query) : Source query
  | graph {graph : Graph} {node : String} {query : Query} (h : graph.query node = .ok query) :
      Source query

theorem Source.nodup (h : query.Source) : (query.windows.map Window.id).Nodup := by
  cases h with
  | read h => exact (Built.read h).nodup
  | parse h => exact (Built.read (parse_eq_ok_iff.mp h).1).nodup
  | graph h =>
      obtain ⟨text, found, windows, -, -, -, -, -, -, hids, -⟩ := Graph.query_eq_ok h
      exact hids

theorem nodup_after (hids : (query.windows.map Window.id).Nodup) (changes : List QueryChange) :
    ((query.after changes).windows.map Window.id).Nodup := by
  induction changes generalizing query with
  | nil => exact hids
  | cons change changes ih => exact ih (nodup_change hids change)

theorem window?_eq_some_iff (hids : (query.windows.map Window.id).Nodup) {id : Term} :
    query.window? id = some window ↔ window ∈ query.windows ∧ window.id = id := by
  constructor
  · intro hfound
    exact ⟨List.mem_of_find?_eq_some hfound, by simpa using List.find?_some hfound⟩
  · rintro ⟨hmem, rfl⟩
    exact window?_of_mem hids hmem

/-- Without two windows of one name, it is the set of windows that counts. -/
theorem sameAs_iff_of_nodup {a b : Query} (ha : (a.windows.map Window.id).Nodup)
    (hb : (b.windows.map Window.id).Nodup) :
    a.sameAs b ↔ a.prologue = b.prologue ∧ a.body = b.body ∧ a.output = b.output ∧
      a.operator = b.operator ∧ ∀ window, window ∈ a.windows ↔ window ∈ b.windows := by
  rw [sameAs_iff, List.perm_ext_iff_of_nodup (List.Nodup.of_map _ ha) (List.Nodup.of_map _ hb)]
  tauto

/-- After any changes to a query, its windows have names of their own, which are those that a further
declaration must not use, and under which they are found. Two such queries are the same if they have the
same parts and the same set of windows. -/
theorem windows_after {source : Query} (hsource : source.Source) (changes : List QueryChange) :
    let query := source.after changes
    (query.windows.map Window.id).Nodup ∧
      (∀ window : Window,
        ((∃ error, (query.change (.addWindow window)).1 = .error error) ↔
          ∃ other ∈ query.windows, other.id = window.id) ∧
        ∀ answer next, query.change (.addWindow window) = (answer, next) →
          (answer = .error (.duplicateWindow window.id.text) ∧ next = query) ∨
          (answer = .ok () ∧ next = { query with windows := query.windows ++ [window] })) ∧
      (∀ id window, query.window? id = some window ↔ window ∈ query.windows ∧ window.id = id) ∧
      ∀ source' : Query, source'.Source → ∀ changes' : List QueryChange,
        let query' := source'.after changes'
        query.sameAs query' ↔ query.prologue = query'.prologue ∧ query.body = query'.body ∧
          query.output = query'.output ∧ query.operator = query'.operator ∧
          ∀ window, window ∈ query.windows ↔ window ∈ query'.windows := by
  intro query
  have hids : (query.windows.map Window.id).Nodup := nodup_after hsource.nodup changes
  refine ⟨hids, fun window => ?_, fun id window => window?_eq_some_iff hids, ?_⟩
  · by_cases hused : ∃ other ∈ query.windows, other.id = window.id
    · obtain ⟨other, hother, hid⟩ := hused
      rw [change_addWindow_of_used hother hid]
      refine ⟨iff_of_true ⟨_, rfl⟩ ⟨other, hother, hid⟩, fun answer next h => .inl ?_⟩
      obtain ⟨rfl, rfl⟩ := Prod.mk.inj h
      exact ⟨rfl, rfl⟩
    · have hnew : ∀ other ∈ query.windows, other.id ≠ window.id :=
        fun other hother hid => hused ⟨other, hother, hid⟩
      rw [change_addWindow_of_new hnew]
      refine ⟨iff_of_false (by rintro ⟨_, ⟨⟩⟩) hused, fun answer next h => .inr ?_⟩
      obtain ⟨rfl, rfl⟩ := Prod.mk.inj h
      exact ⟨rfl, rfl⟩
  · intro source' hsource' changes' query'
    exact sameAs_iff_of_nodup hids (nodup_after hsource'.nodup changes')

/-- A window over the last so many items of a stream. -/
def latest (id : Iri) (items : String) : Window :=
  ⟨.iri id, .iri Vocabulary.rdfsResource,
    .physical (.literal (.typed items "http://www.w3.org/2001/XMLSchema#integer")), none⟩

/-- Two more windows of a query over the last hour are declared in either order, and not twice. -/
theorem windows_after_hourly :
    let ten := latest Vocabulary.rdfsLiteral "10"
    let five := latest Vocabulary.rdfsResource "5"
    let query := hourly.after [.addWindow ten, .setOutputOperator .dstream, .addWindow five]
    let query' := hourly.after [.addWindow five, .addWindow ten, .addWindow ten,
      .setOutputOperator .dstream]
    hourly.Source ∧ query.windows = hourly.windows ++ [ten, five] ∧
      query'.windows = hourly.windows ++ [five, ten] ∧ query.sameAs query' ∧
      query.window? ten.id = some ten ∧
      ∃ error, (query.change (.addWindow { ten with stream := ten.id })).1 = .error error := by
  intro ten five query query'
  have hsource : hourly.Source := .read read_hourlyText
  have hwindows : query.windows = hourly.windows ++ [ten, five] := by decide +kernel
  have hwindows' : query'.windows = hourly.windows ++ [five, ten] := by decide +kernel
  obtain ⟨-, hadd, hfind, hsame⟩ := windows_after hsource
    [.addWindow ten, .setOutputOperator .dstream, .addWindow five]
  have hten : ten ∈ query.windows := by simp [hwindows]
  refine ⟨hsource, hwindows, hwindows', ?_, (hfind _ _).mpr ⟨hten, rfl⟩,
    (hadd { ten with stream := ten.id }).1.mpr ⟨ten, hten, rfl⟩⟩
  refine (hsame hourly hsource [.addWindow five, .addWindow ten, .addWindow ten,
    .setOutputOperator .dstream]).mpr ⟨rfl, rfl, rfl, rfl, fun window => ?_⟩
  change window ∈ query.windows ↔ window ∈ query'.windows
  rw [hwindows, hwindows']
  simp [or_comm]

end Query

end StreamQuery
