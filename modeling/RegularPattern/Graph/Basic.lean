/-!
# State graphs

A graph is a numbered collection of states. Each state has epsilon edges, in the order in which
they were added, and consuming edges, grouped by character and ascending. No edge is kept twice.

## Main definitions

* `Edge` — an edge by itself.
* `Transitions` — consuming edges by character; `insertTarget` keeps the characters ascending.
* `State`, `State.addEdge` — the edges that leave one state.
* `Graph`, `Graph.addEdge` — states by number; an unknown number has no edges.
* `Graph.WellFormed`, `Graph.EpsilonsStay` — every edge, or every epsilon edge, ends at a state of
  the graph.
-/

namespace RegularPattern

/-- The number of a state in its graph. -/
abbrev StateId := Nat

/-- An edge between two states, with or without a character to consume. -/
inductive Edge where
  | epsilon (source target : StateId)
  | consuming (source : StateId) (c : Char) (target : StateId)
  deriving DecidableEq

namespace Edge

def source : Edge → StateId
  | epsilon source _ => source
  | consuming source _ _ => source

def target : Edge → StateId
  | epsilon _ target => target
  | consuming _ _ target => target

@[simp] theorem source_epsilon (s t : StateId) : (epsilon s t).source = s := rfl

@[simp] theorem source_consuming (s : StateId) (c : Char) (t : StateId) :
    (consuming s c t).source = s := rfl

@[simp] theorem target_epsilon (s t : StateId) : (epsilon s t).target = t := rfl

@[simp] theorem target_consuming (s : StateId) (c : Char) (t : StateId) :
    (consuming s c t).target = t := rfl

end Edge

/-- Appends a target, unless it is there already. -/
def appendNew (targets : List StateId) (target : StateId) : List StateId :=
  if target ∈ targets then targets else targets ++ [target]

theorem mem_appendNew {targets : List StateId} {target id : StateId} :
    id ∈ appendNew targets target ↔ id ∈ targets ∨ id = target := by
  unfold appendNew
  split
  · constructor
    · exact Or.inl
    · rintro (mem | rfl) <;> assumption
  · simp

/-- Consuming edges, grouped by their character. -/
abbrev Transitions := List (Char × List StateId)

namespace Transitions

/-- The characters ascend. -/
def Ascending (transitions : Transitions) : Prop :=
  transitions.Pairwise fun earlier later => earlier.1 < later.1

/-- Adds a target on a character and keeps the characters ascending. -/
def insertTarget (c : Char) (target : StateId) : Transitions → Transitions
  | [] => [(c, [target])]
  | (d, targets) :: rest =>
    if c < d then
      (c, [target]) :: (d, targets) :: rest
    else if c = d then
      (d, appendNew targets target) :: rest
    else
      (d, targets) :: insertTarget c target rest

theorem eq_or_mem_of_mem_insertTarget {c : Char} {target : StateId} {transitions : Transitions}
    {entry : Char × List StateId} (mem : entry ∈ insertTarget c target transitions) :
    entry.1 = c ∨ ∃ old ∈ transitions, entry.1 = old.1 := by
  fun_induction insertTarget c target transitions <;> grind

theorem Ascending.insertTarget {transitions : Transitions} (ascending : transitions.Ascending)
    (c : Char) (target : StateId) : (insertTarget c target transitions).Ascending := by
  unfold Ascending at ascending ⊢
  fun_induction Transitions.insertTarget c target transitions with
  | case1 => simp
  | case2 d targets rest lt =>
    refine List.pairwise_cons.mpr ⟨?_, ascending⟩
    intro entry mem
    rcases List.mem_cons.mp mem with rfl | mem
    · exact lt
    · exact Char.lt_trans lt ((List.pairwise_cons.mp ascending).1 entry mem)
  | case3 => simpa using ascending
  | case4 d targets rest notLt ne ih =>
    obtain ⟨first, others⟩ := List.pairwise_cons.mp ascending
    refine List.pairwise_cons.mpr ⟨?_, ih others⟩
    intro entry mem
    have lt : d < c := by grind
    rcases eq_or_mem_of_mem_insertTarget mem with same | ⟨old, mem, same⟩
    · simpa [same] using lt
    · simpa [same] using first old mem

/-- The states reached by consuming `c`. -/
def targets (transitions : Transitions) (c : Char) : List StateId :=
  (transitions.lookup c).getD []

theorem targets_cons (d : Char) (here : List StateId) (rest : Transitions) (c : Char) :
    targets ((d, here) :: rest) c = if c = d then here else targets rest c := by
  unfold targets
  rw [List.lookup_cons]
  by_cases same : c = d
  · simp [same]
  · simp [beq_eq_false_iff_ne.mpr same, same]

theorem targets_eq_nil_of_lt {transitions : Transitions} {c : Char}
    (lt : ∀ entry ∈ transitions, c < entry.1) : targets transitions c = [] := by
  have absent : transitions.lookup c = none := by
    rw [List.lookup_eq_none_iff]
    intro entry mem
    simpa using Char.ne_of_lt (lt entry mem)
  simp [targets, absent]

theorem targets_insertTarget {transitions : Transitions} (ascending : transitions.Ascending)
    (c : Char) (target : StateId) (d : Char) :
    targets (insertTarget c target transitions) d =
      if d = c then appendNew (targets transitions c) target else targets transitions d := by
  fun_induction insertTarget c target transitions with
  | case1 => simp [targets_cons, appendNew, targets_eq_nil_of_lt]
  | case2 e here rest lt =>
    have absent : targets ((e, here) :: rest) c = [] := by
      apply targets_eq_nil_of_lt
      intro entry mem
      rcases List.mem_cons.mp mem with rfl | mem
      · exact lt
      · exact Char.lt_trans lt ((List.pairwise_cons.mp ascending).1 entry mem)
    rw [targets_cons c, absent]
    simp [appendNew]
  | case3 here rest => grind [targets_cons]
  | case4 e here rest notLt ne ih =>
    have := ih (List.pairwise_cons.mp ascending).2
    grind [targets_cons]

theorem exists_of_mem_targets {transitions : Transitions} {c : Char} {target : StateId}
    (mem : target ∈ targets transitions c) : ∃ entry ∈ transitions, target ∈ entry.2 := by
  induction transitions with
  | nil => cases mem
  | cons entry rest ih => grind [targets_cons]

theorem Ascending.targets_eq {transitions : Transitions} (ascending : transitions.Ascending)
    {entry : Char × List StateId} (mem : entry ∈ transitions) :
    targets transitions entry.1 = entry.2 := by
  induction transitions with
  | nil => cases mem
  | cons first rest ih =>
    obtain ⟨before, others⟩ := List.pairwise_cons.mp ascending
    rw [targets_cons first.1 first.2]
    rcases List.mem_cons.mp mem with rfl | mem
    · exact if_pos rfl
    · have ne : entry.1 ≠ first.1 := (Char.ne_of_lt (before entry mem)).symm
      rw [if_neg ne, ih others mem]

end Transitions

/-- The edges that leave a state. -/
structure State where
  epsilons : List StateId := []
  transitions : Transitions := []
  ascending : transitions.Ascending := by exact List.Pairwise.nil
  deriving DecidableEq

namespace State

/-- The states reached by consuming `c`. -/
def targets (state : State) (c : Char) : List StateId :=
  state.transitions.targets c

def addEpsilon (state : State) (target : StateId) : State :=
  { state with epsilons := appendNew state.epsilons target }

def addTransition (state : State) (c : Char) (target : StateId) : State where
  epsilons := state.epsilons
  transitions := state.transitions.insertTarget c target
  ascending := state.ascending.insertTarget c target

/-- Adds an edge that leaves the state; the source of the edge is not looked at. -/
def addEdge (state : State) : Edge → State
  | .epsilon _ target => state.addEpsilon target
  | .consuming _ c target => state.addTransition c target

/-- The state to which the given edges have been added, one after the other. -/
def ofEdges (edges : List Edge) : State :=
  edges.foldl addEdge {}

/-- How many edges of both kinds leave a state. -/
def edgeCount (state : State) : Nat :=
  state.transitions.foldl (fun count entry => count + entry.2.length) state.epsilons.length

end State

/-- States, numbered from zero. -/
structure Graph where
  states : Array State := #[]
  deriving DecidableEq

namespace Graph

def size (graph : Graph) : Nat :=
  graph.states.size

/-- The state of a given number; an unknown number gives a state without edges. -/
def state (graph : Graph) (id : StateId) : State :=
  graph.states.getD id {}

def epsilons (graph : Graph) (id : StateId) : List StateId :=
  (graph.state id).epsilons

/-- The states reached from `id` by consuming `c`. -/
def targets (graph : Graph) (id : StateId) (c : Char) : List StateId :=
  (graph.state id).targets c

/-- Adds a state without edges; its number is the size of the graph before. -/
def addState (graph : Graph) : Graph :=
  ⟨graph.states.push {}⟩

/-- Adds an edge to the state that it leaves. -/
def addEdge (graph : Graph) (edge : Edge) : Graph :=
  ⟨graph.states.modify edge.source fun state => state.addEdge edge⟩

/-- Whether the graph has the edge. -/
def HasEdge (graph : Graph) : Edge → Prop
  | .epsilon source target => target ∈ graph.epsilons source
  | .consuming source c target => target ∈ graph.targets source c

instance (graph : Graph) (edge : Edge) : Decidable (graph.HasEdge edge) := by
  cases edge <;> unfold HasEdge <;> infer_instance

def edgeCount (graph : Graph) : Nat :=
  graph.states.foldl (fun count state => count + state.edgeCount) 0

/-- Every edge ends at a state of the graph. -/
def WellFormed (graph : Graph) : Prop :=
  ∀ edge : Edge, graph.HasEdge edge → edge.target < graph.size

/-- Every epsilon edge ends at a state of the graph, whatever the consuming edges do. -/
def EpsilonsStay (graph : Graph) : Prop :=
  ∀ id, ∀ target ∈ graph.epsilons id, target < graph.size

theorem state_of_size_le {graph : Graph} {id : StateId} (le : graph.size ≤ id) :
    graph.state id = {} := by
  simp only [size] at le
  simp [state, Array.getD_eq_getD_getElem?, Array.getElem?_eq_none le]

@[simp] theorem size_addState (graph : Graph) : graph.addState.size = graph.size + 1 := by
  simp [addState, size]

@[simp] theorem size_addEdge (graph : Graph) (edge : Edge) :
    (graph.addEdge edge).size = graph.size := by
  simp [addEdge, size]

@[simp] theorem state_addState (graph : Graph) (id : StateId) :
    graph.addState.state id = graph.state id := by
  simp only [state, addState, Array.getD_eq_getD_getElem?, Array.getElem?_push]
  split
  · next last => subst last; simp
  · rfl

theorem state_addEdge {graph : Graph} {edge : Edge} (lt : edge.source < graph.size)
    (id : StateId) :
    (graph.addEdge edge).state id =
      if id = edge.source then (graph.state id).addEdge edge else graph.state id := by
  simp only [size] at lt
  simp only [state, addEdge, Array.getD_eq_getD_getElem?, Array.getElem?_modify]
  grind

theorem state_eq_empty_or_mem (graph : Graph) (id : StateId) :
    graph.state id = {} ∨ graph.state id ∈ graph.states := by
  by_cases lt : id < graph.states.size
  · simp [state, lt]
  · exact .inl (state_of_size_le (Nat.not_lt.mp lt))

/-- It is enough to look at the targets that the states keep. -/
theorem wellFormed_iff (graph : Graph) :
    graph.WellFormed ↔ ∀ state ∈ graph.states, (∀ target ∈ state.epsilons, target < graph.size) ∧
      ∀ entry ∈ state.transitions, ∀ target ∈ entry.2, target < graph.size := by
  constructor
  · intro wellFormed state mem
    obtain ⟨id, lt, here⟩ := Array.mem_iff_getElem.mp mem
    have here : graph.state id = state := by simpa [Graph.state, lt] using here
    refine ⟨fun target edge => ?_, fun entry mem target edge => ?_⟩
    · exact wellFormed (.epsilon id target) (by simpa [HasEdge, epsilons, here] using edge)
    · have consumed := state.ascending.targets_eq mem
      refine wellFormed (.consuming id entry.1 target) ?_
      simpa [HasEdge, Graph.targets, State.targets, here, consumed] using edge
  · intro inRange edge has
    cases edge with
    | epsilon source target =>
      rcases graph.state_eq_empty_or_mem source with empty | mem
      · simp [HasEdge, epsilons, empty] at has
      · exact (inRange _ mem).1 target has
    | consuming source c target =>
      rcases graph.state_eq_empty_or_mem source with empty | mem
      · simp [HasEdge, Graph.targets, State.targets, Transitions.targets, empty] at has
      · obtain ⟨entry, kept, edge⟩ := Transitions.exists_of_mem_targets has
        exact (inRange _ mem).2 entry kept target edge

instance (graph : Graph) : Decidable graph.WellFormed :=
  decidable_of_iff _ graph.wellFormed_iff.symm

theorem epsilonsStay_iff (graph : Graph) :
    graph.EpsilonsStay ↔ ∀ state ∈ graph.states, ∀ target ∈ state.epsilons,
      target < graph.size := by
  constructor
  · intro stay state mem target edge
    obtain ⟨id, lt, here⟩ := Array.mem_iff_getElem.mp mem
    have here : graph.state id = state := by simpa [Graph.state, lt] using here
    exact stay id target (by simpa [epsilons, here] using edge)
  · intro inRange id target edge
    rcases graph.state_eq_empty_or_mem id with empty | mem
    · simp [epsilons, empty] at edge
    · exact inRange _ mem target edge

instance (graph : Graph) : Decidable graph.EpsilonsStay :=
  decidable_of_iff _ graph.epsilonsStay_iff.symm

end Graph

end RegularPattern
