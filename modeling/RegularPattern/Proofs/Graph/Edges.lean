import RegularPattern.Graph.Fragment

/-!
# Edges of growing graphs

What the operations on graphs do to the edges, said through `HasEdge` alone: a fresh state has no
edges, and a wired fragment adds exactly the edges of its list. The order of edges does not matter
here.
-/

namespace RegularPattern.Graph

variable {graph : Graph}

@[simp] theorem epsilons_addState (graph : Graph) (id : StateId) :
    graph.addState.epsilons id = graph.epsilons id := by
  simp [epsilons]

@[simp] theorem targets_addState (graph : Graph) (id : StateId) (c : Char) :
    graph.addState.targets id c = graph.targets id c := by
  simp [targets]

@[simp] theorem hasEdge_addState (graph : Graph) (edge : Edge) :
    graph.addState.HasEdge edge ↔ graph.HasEdge edge := by
  cases edge <;> simp [HasEdge]

theorem source_lt_of_hasEdge {edge : Edge} (has : graph.HasEdge edge) :
    edge.source < graph.size := by
  apply Nat.lt_of_not_le
  intro le
  have blank := state_of_size_le le
  cases edge with
  | epsilon source target =>
    rw [Edge.source_epsilon] at blank
    simp [HasEdge, epsilons, blank] at has
  | consuming source c target =>
    rw [Edge.source_consuming] at blank
    simp [HasEdge, targets, State.targets, Transitions.targets, blank] at has

/-- Whether a graph has an edge depends on nothing but the state that the edge leaves. -/
theorem hasEdge_congr {other : Graph} {edge : Edge}
    (same : other.state edge.source = graph.state edge.source) :
    other.HasEdge edge ↔ graph.HasEdge edge := by
  cases edge <;> simp_all [HasEdge, epsilons, targets]

theorem mem_epsilons_addEdge {state : State} {edge : Edge} {id : StateId} :
    id ∈ (state.addEdge edge).epsilons ↔
      id ∈ state.epsilons ∨ edge = .epsilon edge.source id := by
  cases edge with
  | epsilon source target =>
    simp [State.addEdge, State.addEpsilon, mem_appendNew, eq_comm]
  | consuming => simp [State.addEdge, State.addTransition]

theorem mem_targets_addEdge {state : State} {edge : Edge} {c : Char} {id : StateId} :
    id ∈ (state.addEdge edge).targets c ↔
      id ∈ state.targets c ∨ edge = .consuming edge.source c id := by
  cases edge with
  | epsilon => simp [State.addEdge, State.addEpsilon, State.targets]
  | consuming source d target =>
    simp only [State.addEdge, State.addTransition, State.targets,
      Transitions.targets_insertTarget state.ascending]
    by_cases same : c = d
    · simp [same, mem_appendNew, eq_comm]
    · simp [same, Ne.symm same]

theorem hasEdge_addEdge {edge : Edge} (lt : edge.source < graph.size) (other : Edge) :
    (graph.addEdge edge).HasEdge other ↔ graph.HasEdge other ∨ other = edge := by
  by_cases same : other.source = edge.source
  · cases other with
    | epsilon source target =>
      rw [Edge.source_epsilon] at same
      simp [HasEdge, epsilons, state_addEdge lt, same, mem_epsilons_addEdge, eq_comm]
    | consuming source c target =>
      rw [Edge.source_consuming] at same
      simp [HasEdge, targets, state_addEdge lt, same, mem_targets_addEdge, eq_comm]
  · have unchanged : (graph.addEdge edge).state other.source = graph.state other.source := by
      rw [state_addEdge lt, if_neg same]
    have ne : other ≠ edge := fun eq => same (by rw [eq])
    simp [hasEdge_congr unchanged, ne]

/-! ## Wired fragments -/

section

variable {edges : List Edge}

@[simp] theorem size_addEdges (graph : Graph) (edges : List Edge) :
    (store.addEdges edges graph).size = graph.size := by
  induction edges generalizing graph with
  | nil => rfl
  | cons edge edges ih =>
    simp only [GraphStore.addEdges, List.foldl_cons] at ih ⊢
    rw [ih]
    exact size_addEdge graph edge

theorem hasEdge_addEdges (known : ∀ edge ∈ edges, edge.source < graph.size) (other : Edge) :
    (store.addEdges edges graph).HasEdge other ↔ graph.HasEdge other ∨ other ∈ edges := by
  induction edges generalizing graph with
  | nil => simp [GraphStore.addEdges]
  | cons edge edges ih =>
    have later : ∀ e ∈ edges, e.source < (graph.addEdge edge).size := by
      intro e mem
      simpa using known e (List.mem_cons_of_mem _ mem)
    have others : (store.addEdges edges (graph.addEdge edge)).HasEdge other ↔
        (graph.addEdge edge).HasEdge other ∨ other ∈ edges := ih later
    rw [List.mem_cons, ← or_assoc, ← hasEdge_addEdge (known edge List.mem_cons_self) other]
    exact others

/-- A state gains the new edges that leave it, in their order. -/
theorem state_addEdges_eq (known : ∀ edge ∈ edges, edge.source < graph.size) (id : StateId) :
    (store.addEdges edges graph).state id =
      (edges.filter (·.source = id)).foldl State.addEdge (graph.state id) := by
  induction edges generalizing graph with
  | nil => rfl
  | cons edge edges ih =>
    have later : ∀ e ∈ edges, e.source < (graph.addEdge edge).size := by
      intro e mem
      simpa using known e (List.mem_cons_of_mem _ mem)
    have others : (store.addEdges edges (graph.addEdge edge)).state id =
        (edges.filter (·.source = id)).foldl State.addEdge ((graph.addEdge edge).state id) :=
      ih later
    refine others.trans ?_
    rw [state_addEdge (known edge List.mem_cons_self)]
    by_cases same : id = edge.source
    · simp [same]
    · simp [same, Ne.symm same]

end

end RegularPattern.Graph
