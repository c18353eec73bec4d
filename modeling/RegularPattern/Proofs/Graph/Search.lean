import RegularPattern.Graph.DepthFirst

/-!
# What a depth-first search finds

A search depends on what was seen only as a set, and may be cut anywhere in the list of states
that it begins with. It visits only what is reached, and with nothing seen it visits everything
that is reached.
-/

namespace RegularPattern.Graph

namespace DepthFirst

variable {graph : Graph} {todo seen order : List StateId} {id : StateId}

theorem congr {seen' : List StateId} (search : graph.DepthFirst todo seen order)
    (same : ∀ id, id ∈ seen ↔ id ∈ seen') : graph.DepthFirst todo seen' order := by
  induction search generalizing seen' with
  | done => exact .done seen'
  | skip old _ ih => exact .skip ((same _).mp old) (ih same)
  | visit new _ _ ihDeeper ihOthers =>
    refine .visit (mt (same _).mpr new) (ihDeeper ?_) (ihOthers ?_)
    · simp [same]
    · simp [same]

theorem append {more later : List StateId} (search : graph.DepthFirst todo seen order)
    (search' : graph.DepthFirst more (order ++ seen) later) :
    graph.DepthFirst (todo ++ more) seen (order ++ later) := by
  induction search with
  | done => exact search'
  | skip old _ ih => exact .skip old (ih search')
  | @visit s todo seen below after new deeper others _ ih =>
    have rest := ih (search'.congr (by simp; grind))
    rw [List.cons_append, List.append_assoc]
    exact .visit new deeper rest

theorem split {more : List StateId} (search : graph.DepthFirst (todo ++ more) seen order) :
    ∃ first later, order = first ++ later ∧ graph.DepthFirst todo seen first ∧
      graph.DepthFirst more (first ++ seen) later := by
  generalize whole : todo ++ more = start at search
  induction search generalizing todo with
  | done seen =>
    obtain ⟨rfl, rfl⟩ := List.append_eq_nil_iff.mp whole
    exact ⟨[], [], rfl, .done seen, .done seen⟩
  | @skip s start seen order old others ih =>
    cases todo with
    | nil =>
      obtain rfl : more = s :: start := whole
      exact ⟨[], order, rfl, .done seen, .skip old others⟩
    | cons head todo =>
      obtain ⟨rfl, tails⟩ := List.cons.inj whole
      obtain ⟨first, later, rfl, search, search'⟩ := ih tails
      exact ⟨first, later, rfl, .skip old search, search'⟩
  | @visit s start seen below after new deeper others _ ih =>
    cases todo with
    | nil =>
      obtain rfl : more = s :: start := whole
      exact ⟨[], s :: below ++ after, rfl, .done seen, .visit new deeper others⟩
    | cons head todo =>
      obtain ⟨rfl, tails⟩ := List.cons.inj whole
      obtain ⟨first, later, rfl, search, search'⟩ := ih tails
      refine ⟨head :: below ++ first, later, by simp, .visit new deeper search, ?_⟩
      exact search'.congr (by simp; grind)

theorem mem_of_mem_todo (search : graph.DepthFirst todo seen order) {t : StateId}
    (mem : t ∈ todo) : t ∈ seen ∨ t ∈ order := by
  induction search with
  | done => cases mem
  | skip old _ ih => grind
  | visit new _ _ _ ihOthers => grind

theorem mem_of_epsilon (search : graph.DepthFirst todo seen order) {s t : StateId}
    (mem : s ∈ order) (edge : t ∈ graph.epsilons s) : t ∈ seen ∨ t ∈ order := by
  induction search with
  | done => cases mem
  | skip _ _ ih => exact ih mem
  | visit new deeper _ ihDeeper ihOthers =>
    have := deeper.mem_of_mem_todo (t := t)
    grind

theorem not_mem_seen (search : graph.DepthFirst todo seen order) (mem : id ∈ order) :
    id ∉ seen := by
  induction search with
  | done => cases mem
  | skip _ _ ih => exact ih mem
  | visit new _ _ ihDeeper ihOthers => grind

/-- A search visits each state once. -/
theorem nodup (search : graph.DepthFirst todo seen order) : order.Nodup := by
  induction search with
  | done => exact .nil
  | skip _ _ ih => exact ih
  | visit new deeper others ihDeeper ihOthers =>
    rw [List.nodup_append, List.nodup_cons]
    refine ⟨⟨fun mem => deeper.not_mem_seen mem List.mem_cons_self, ihDeeper⟩, ihOthers, ?_⟩
    rintro id mem other mem' rfl
    exact others.not_mem_seen mem' (by grind)

theorem exists_reaches (search : graph.DepthFirst todo seen order) (mem : id ∈ order) :
    ∃ root ∈ todo, graph.Reaches root id := by
  induction search with
  | done => cases mem
  | skip _ _ ih =>
    obtain ⟨root, mem, reaches⟩ := ih mem
    exact ⟨root, List.mem_cons_of_mem _ mem, reaches⟩
  | @visit s todo seen below after _ _ _ ihDeeper ihOthers =>
    rcases List.mem_append.mp mem with mem | mem
    · rcases List.mem_cons.mp mem with rfl | mem
      · exact ⟨id, List.mem_cons_self, .refl id⟩
      · obtain ⟨next, edge, reaches⟩ := ihDeeper mem
        exact ⟨s, List.mem_cons_self, .epsilon edge reaches⟩
    · obtain ⟨root, mem, reaches⟩ := ihOthers mem
      exact ⟨root, List.mem_cons_of_mem _ mem, reaches⟩

/-- If epsilon edges do not lead out of what was seen, then a search adds to it exactly what is
reached from where the search begins. -/
theorem mem_seen_or_order_iff (search : graph.DepthFirst todo seen order)
    (closed : ∀ s ∈ seen, ∀ t ∈ graph.epsilons s, t ∈ seen) :
    id ∈ seen ∨ id ∈ order ↔ id ∈ seen ∨ ∃ root ∈ todo, graph.Reaches root id := by
  constructor
  · exact Or.imp_right search.exists_reaches
  · rintro (old | ⟨root, mem, reaches⟩)
    · exact Or.inl old
    have found : root ∈ seen ∨ root ∈ order := search.mem_of_mem_todo mem
    clear mem
    induction reaches with
    | refl => exact found
    | @epsilon s t _ edge _ ih =>
      refine ih (found.elim (fun old => ?_) (fun new => search.mem_of_epsilon new edge))
      exact Or.inl (closed s old t edge)

/-- A search with nothing seen visits exactly what is reached from where it begins. -/
theorem mem_iff_reaches (search : graph.DepthFirst todo [] order) :
    id ∈ order ↔ ∃ root ∈ todo, graph.Reaches root id := by
  simpa using search.mem_seen_or_order_iff (by simp)

end DepthFirst

/-! ## States of the graph -/

variable {graph : Graph}

theorem WellFormed.epsilonsStay (wellFormed : graph.WellFormed) : graph.EpsilonsStay :=
  fun id target edge => wellFormed (.epsilon id target) edge

theorem WellFormed.target_lt (wellFormed : graph.WellFormed) {s t : StateId} {c : Char}
    (edge : t ∈ graph.targets s c) : t < graph.size :=
  wellFormed (.consuming s c t) edge

theorem WellFormed.lt_of_path (wellFormed : graph.WellFormed) {s t : StateId} {word : List Char}
    (path : graph.Path s word t) (lt : s < graph.size) : t < graph.size := by
  induction path with
  | refl => exact lt
  | epsilon edge _ ih => exact ih (wellFormed.epsilonsStay _ _ edge)
  | consuming edge _ ih => exact ih (wellFormed.target_lt edge)

theorem EpsilonsStay.lt_of_reaches (stay : graph.EpsilonsStay) {s t : StateId}
    (reaches : graph.Reaches s t) (lt : s < graph.size) : t < graph.size := by
  induction reaches with
  | refl => exact lt
  | epsilon edge _ ih => exact ih (stay _ _ edge)

theorem EpsilonsStay.lt_of_search (stay : graph.EpsilonsStay) {todo seen order : List StateId}
    (search : graph.DepthFirst todo seen order) (inRange : ∀ id ∈ todo, id < graph.size) :
    ∀ id ∈ order, id < graph.size := by
  intro id mem
  obtain ⟨root, begun, reaches⟩ := search.exists_reaches mem
  exact stay.lt_of_reaches reaches (inRange root begun)

end RegularPattern.Graph
