import RegularPattern.Proofs.Graph.Shape
import RegularPattern.Proofs.Pattern.Renaming

/-!
# Graphs with renamed characters

Consuming edges are kept by character, and a renaming may change the order of the characters. Two
graphs are therefore compared by what is reached on each character. Thompson's construction never
looks at a character, so it makes such graphs of a derivation and of its renaming; they have the
same paths, up to the characters. Where a state has one consuming edge at most, there is no order
to change.

## Main definitions

* `State.Renamed`, `Graph.Renamed` — the same edges, with characters renamed.
-/

namespace RegularPattern

variable {f : Equiv.Perm Char}

/-- The edge, with its character renamed. -/
def Edge.rename (f : Equiv.Perm Char) : Edge → Edge
  | .epsilon source target => .epsilon source target
  | .consuming source c target => .consuming source (f c) target

@[simp] theorem Edge.source_rename (edge : Edge) : (edge.rename f).source = edge.source := by
  cases edge <;> rfl

/-! ## States -/

/-- The same edges, with characters renamed. -/
structure State.Renamed (f : Equiv.Perm Char) (state image : State) : Prop where
  epsilons_eq : image.epsilons = state.epsilons
  targets_eq : ∀ c, image.targets (f c) = state.targets c

namespace State

variable {state image : State}

theorem renamed_empty : Renamed f {} {} := ⟨rfl, fun _ => rfl⟩

namespace Renamed

theorem symm (renamed : Renamed f state image) : Renamed f.symm image state where
  epsilons_eq := renamed.epsilons_eq.symm
  targets_eq c := by
    have same := renamed.targets_eq (f.symm c)
    rwa [f.apply_symm_apply, eq_comm] at same

theorem addEdge (renamed : Renamed f state image) (edge : Edge) :
    Renamed f (state.addEdge edge) (image.addEdge (edge.rename f)) := by
  have targets := renamed.targets_eq
  cases edge with
  | epsilon source target =>
    refine ⟨?_, targets⟩
    simp only [State.addEdge, addEpsilon, Edge.rename, renamed.epsilons_eq]
  | consuming source d target =>
    refine ⟨renamed.epsilons_eq, fun c => ?_⟩
    simp only [State.targets] at targets
    simp only [State.addEdge, addTransition, Edge.rename, State.targets,
      Transitions.targets_insertTarget state.ascending,
      Transitions.targets_insertTarget image.ascending, targets, f.apply_eq_iff_eq]

end Renamed

/-- A state whose consuming edges can have one order only. -/
def Plain (state : State) : Prop :=
  state.transitions = [] ∨ ∃ c target, state.transitions = [(c, [target])]

theorem Branching.plain (branching : state.Branching) : state.Plain := by
  rcases branching with ⟨-, one⟩ | ⟨none, -⟩
  · exact .inr one
  · exact .inl none

theorem Renamed.transitions_eq (renamed : Renamed f state image) (plain : state.Plain)
    (plain' : image.Plain) :
    image.transitions = state.transitions.map fun entry => (f entry.1, entry.2) := by
  have targets := renamed.targets_eq
  simp only [State.targets] at targets
  have nothing (c : Char) : Transitions.targets [] c = [] := rfl
  rcases plain with none | ⟨c, target, one⟩ <;> rcases plain' with none' | ⟨d, target', one'⟩
  · rw [none, none', List.map_nil]
  · have reached := targets (f.symm d)
    simp [none, one', nothing, Transitions.targets_cons] at reached
  · have reached := targets c
    simp [one, none', nothing, Transitions.targets_cons] at reached
  · have reached := targets c
    rw [one, one', Transitions.targets_cons, Transitions.targets_cons, if_pos rfl, nothing]
      at reached
    split at reached
    · next same => simp_all
    · cases reached

end State

/-! ## Graphs -/

namespace Graph

variable {graph image : Graph}

/-- As many states, and each of them renamed. -/
structure Renamed (f : Equiv.Perm Char) (graph image : Graph) : Prop where
  size_eq : image.size = graph.size
  state : ∀ id, State.Renamed f (graph.state id) (image.state id)

theorem addEdge_of_size_le {edge : Edge} (le : graph.size ≤ edge.source) :
    graph.addEdge edge = graph := by
  simp only [size] at le
  refine congrArg Graph.mk (Array.ext_getElem? fun id => ?_)
  grind

theorem renamed_empty : Renamed f {} {} := ⟨rfl, fun _ => State.renamed_empty⟩

namespace Renamed

theorem symm (renamed : Renamed f graph image) : Renamed f.symm image graph :=
  ⟨renamed.size_eq.symm, fun id => (renamed.state id).symm⟩

theorem addState (renamed : Renamed f graph image) :
    Renamed f graph.addState image.addState where
  size_eq := by rw [size_addState, size_addState, renamed.size_eq]
  state id := by
    rw [state_addState, state_addState]
    exact renamed.state id

theorem addEdge (renamed : Renamed f graph image) (edge : Edge) :
    Renamed f (graph.addEdge edge) (image.addEdge (edge.rename f)) := by
  have size_eq := renamed.size_eq
  rcases Nat.lt_or_ge edge.source graph.size with lt | le
  · refine ⟨by simpa using size_eq, fun id => ?_⟩
    have lt' : (edge.rename f).source < image.size := by simpa [size_eq] using lt
    rw [state_addEdge lt, state_addEdge lt', Edge.source_rename]
    split
    · exact (renamed.state id).addEdge edge
    · exact renamed.state id
  · have le' : image.size ≤ (edge.rename f).source := by simpa [size_eq] using le
    rwa [addEdge_of_size_le le, addEdge_of_size_le le']

theorem addEdges (renamed : Renamed f graph image) (edges : List Edge) :
    Renamed f (store.addEdges edges graph) (store.addEdges (edges.map (Edge.rename f)) image) := by
  induction edges generalizing graph image with
  | nil => exact renamed
  | cons edge edges ih => exact ih (renamed.addEdge edge)

end Renamed

/-- The same piece, in a graph whose characters are renamed. -/
def SamePiece (f : Equiv.Perm Char) (result image : Fragment × Graph) : Prop :=
  image.1 = result.1 ∧ Renamed f result.2 image.2

theorem Renamed.wire (renamed : Renamed f graph image) {edges edges' : Fragment → List Edge}
    (same : ∀ new, edges' new = (edges new).map (Edge.rename f)) :
    SamePiece f (store.wire edges graph) (store.wire edges' image) := by
  have fresh := renamed.addState.addState.addEdges (edges ⟨graph.size, graph.size + 1⟩)
  refine ⟨by simp [renamed.size_eq], ?_⟩
  rw [← same] at fresh
  simpa only [GraphStore.wire, store, renamed.size_eq] using fresh

/-- The construction makes the same of a derivation and of its renaming. -/
theorem Renamed.build {f : Renaming} {rule : Rule} (tree : Tree rule)
    (renamed : Renamed f.perm graph image) :
    SamePiece f.perm (tree.build (thompson store) graph)
      ((tree.rename f).build (thompson store) image) := by
  induction tree generalizing graph image with
  | plain c => exact renamed.wire fun new => rfl
  | escaped c =>
    refine renamed.wire fun new => ?_
    rw [Renaming.unescape_apply]
    rfl
  | group inner ih => exact ih renamed
  | bare atom ih => exact ih renamed
  | quantified atom q ih =>
    obtain ⟨piece, inner⟩ := ih renamed
    simp only [Tree.rename, Tree.build, piece]
    exact inner.wire fun new => by cases q <;> rfl
  | nothing => exact renamed.wire fun new => rfl
  | append init last ihInit ihLast =>
    cases init with
    | nothing => exact ihLast renamed
    | append init middle =>
      obtain ⟨first, left⟩ := ihInit renamed
      obtain ⟨second, right⟩ := ihLast left
      simp only [Tree.rename] at first second right
      simp only [Tree.rename, Tree.build, first, second]
      exact ⟨rfl, right.addEdge _⟩
  | single term ih => exact ih renamed
  | bar init last ihInit ihLast =>
    obtain ⟨first, left⟩ := ihInit renamed
    obtain ⟨second, right⟩ := ihLast left
    simp only [Tree.rename, Tree.build, first, second]
    exact right.wire fun new => rfl

/-! ## Paths -/

namespace Renamed

theorem path (renamed : Renamed f graph image) {s t : StateId} {word : List Char}
    (path : graph.Path s word t) : image.Path s (word.map f) t := by
  induction path with
  | refl s => exact .refl s
  | epsilon edge _ ih =>
    rw [epsilons, ← (renamed.state _).epsilons_eq] at edge
    exact .epsilon edge ih
  | consuming edge _ ih =>
    rw [targets, ← (renamed.state _).targets_eq] at edge
    exact .consuming edge ih

theorem path_map_iff (renamed : Renamed f graph image) {s t : StateId} {word : List Char} :
    image.Path s (word.map f) t ↔ graph.Path s word t := by
  refine ⟨fun path => ?_, renamed.path⟩
  simpa [Function.comp_def] using renamed.symm.path path

end Renamed

end Graph

end RegularPattern
