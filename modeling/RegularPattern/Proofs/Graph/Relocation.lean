import RegularPattern.Proofs.Graph.Construction
import RegularPattern.Proofs.Pattern.Lockstep

/-!
# Reading into a graph that holds other states

What is read of a pattern into a graph is put behind the states that are there already: these keep
their edges, and all that is new is what would have been made in the empty graph, with every number
moved up by the number of old states. Putting one graph behind another one is compatible with
each operation on graphs, whatever the two graphs hold, so the readers into the two graphs stay in
step.

## Main definitions

* `Edge.shift`, `State.shift`, `Fragment.shift` — all numbers moved up.
* `Graph.append` — a graph with another one behind it.
* `Graph.Appends` — a graph that has been put behind another one, and only that.
* `Reader.Relocatable` — reading does the same in all graphs.
-/

namespace RegularPattern

variable {offset : Nat}

/-! ## Moving numbers -/

/-- The edge between the states whose numbers are larger by `offset`. -/
def Edge.shift (offset : Nat) : Edge → Edge
  | .epsilon source target => .epsilon (offset + source) (offset + target)
  | .consuming source c target => .consuming (offset + source) c (offset + target)

@[simp] theorem Edge.source_shift (edge : Edge) :
    (edge.shift offset).source = offset + edge.source := by
  cases edge <;> rfl

@[simp] theorem Edge.target_shift (edge : Edge) :
    (edge.shift offset).target = offset + edge.target := by
  cases edge <;> rfl

/-- The fragment between the states whose numbers are larger by `offset`. -/
def Fragment.shift (offset : Nat) (fragment : Fragment) : Fragment :=
  ⟨offset + fragment.start, offset + fragment.out⟩

theorem appendNew_map_add (targets : List StateId) (target : StateId) :
    appendNew (targets.map (offset + ·)) (offset + target) =
      (appendNew targets target).map (offset + ·) := by
  unfold appendNew
  split <;> split <;> simp_all

/-- The same edges to the states whose numbers are larger by `offset`. -/
def Transitions.shift (offset : Nat) (transitions : Transitions) : Transitions :=
  transitions.map fun entry => (entry.1, entry.2.map (offset + ·))

namespace Transitions

theorem Ascending.shift {transitions : Transitions} (ascending : transitions.Ascending)
    (offset : Nat) : (transitions.shift offset).Ascending :=
  List.pairwise_map.mpr ascending

theorem insertTarget_shift (c : Char) (target : StateId) (transitions : Transitions) :
    insertTarget c (offset + target) (transitions.shift offset) =
      (insertTarget c target transitions).shift offset := by
  fun_induction insertTarget c target transitions with
  | case1 => rfl
  | case2 d targets rest lt => simp [shift, insertTarget, lt]
  | case3 targets rest lt => simp [shift, insertTarget, appendNew_map_add]
  | case4 d targets rest notLt ne ih =>
    simp only [shift, List.map_cons] at ih ⊢
    simp [insertTarget, notLt, ne, ih]

theorem targets_shift (transitions : Transitions) (c : Char) :
    (transitions.shift offset).targets c = (transitions.targets c).map (offset + ·) := by
  induction transitions with
  | nil => rfl
  | cons entry rest ih =>
    obtain ⟨d, here⟩ := entry
    simp only [shift, List.map_cons, targets_cons] at ih ⊢
    split
    · rfl
    · exact ih

end Transitions

namespace State

/-- The same edges to the states whose numbers are larger by `offset`. -/
def shift (offset : Nat) (state : State) : State where
  epsilons := state.epsilons.map (offset + ·)
  transitions := state.transitions.shift offset
  ascending := state.ascending.shift offset

@[simp] theorem shift_empty : shift offset {} = {} := rfl

theorem addEdge_shift (state : State) (edge : Edge) :
    (state.shift offset).addEdge (edge.shift offset) = (state.addEdge edge).shift offset := by
  cases edge with
  | epsilon source target =>
    simp only [addEdge, Edge.shift, addEpsilon, shift, appendNew_map_add]
  | consuming source c target =>
    simp only [addEdge, Edge.shift, addTransition, shift, Transitions.insertTarget_shift]

end State

/-! ## One graph behind another -/

namespace Graph

variable {before after base graph own : Graph} {fragment : Fragment}

/-- The states of `base`, and behind them those of `graph`, which refer to each other as before. -/
def append (base graph : Graph) : Graph :=
  ⟨base.states ++ graph.states.map (State.shift base.size)⟩

@[simp] theorem size_append (base graph : Graph) :
    (base.append graph).size = base.size + graph.size := by
  simp [append, size]

@[simp] theorem append_empty (base : Graph) : base.append {} = base := by
  simp [append]

theorem state_append (base graph : Graph) (id : StateId) :
    (base.append graph).state id =
      if id < base.size then base.state id else (graph.state (id - base.size)).shift base.size := by
  simp only [state, append, size, Array.getD_eq_getD_getElem?, Array.getElem?_append,
    Array.getElem?_map]
  split
  · rfl
  · cases graph.states[id - base.states.size]? <;> rfl

theorem addState_append (base graph : Graph) :
    (base.append graph).addState = base.append graph.addState := by
  simp [append, addState]

/-- An edge behind `base` is added there, and one whose source is unknown is ignored there too. -/
theorem addEdge_append (base graph : Graph) (edge : Edge) :
    (base.append graph).addEdge (edge.shift base.size) = base.append (graph.addEdge edge) := by
  refine congrArg Graph.mk (Array.ext_getElem? fun id => ?_)
  simp only [append, addEdge, Array.getElem?_modify, Array.getElem?_append, Array.getElem?_map,
    Edge.source_shift, size]
  by_cases old : id < base.states.size
  · have ne : base.states.size + edge.source ≠ id :=
      (old.trans_le (Nat.le_add_right _ _)).ne'
    simp [old, ne]
  · have same : base.states.size + edge.source = id ↔ edge.source = id - base.states.size :=
      ⟨Nat.eq_sub_of_add_eq', fun eq => eq ▸ Nat.add_sub_of_le (Nat.le_of_not_lt old)⟩
    simp only [old, same, if_false]
    split <;> simp [State.addEdge_shift, Function.comp_def]

theorem addEdges_append (base graph : Graph) (edges : List Edge) :
    store.addEdges (edges.map (Edge.shift base.size)) (base.append graph) =
      base.append (store.addEdges edges graph) := by
  induction edges generalizing graph with
  | nil => rfl
  | cons edge edges ih =>
    have added : store.addEdge (edge.shift base.size) (base.append graph) =
        base.append (store.addEdge edge graph) := addEdge_append base graph edge
    simp only [GraphStore.addEdges, List.map_cons, List.foldl_cons, added] at ih ⊢
    exact ih _

theorem wire_append (base graph : Graph) (edges edges' : Fragment → List Edge)
    (same : ∀ new, edges' (new.shift base.size) = (edges new).map (Edge.shift base.size)) :
    store.wire edges' (base.append graph) =
      ((store.wire edges graph).1.shift base.size, base.append (store.wire edges graph).2) := by
  have fragment : store.fragment (base.append graph) =
      ((store.fragment graph).1.shift base.size, base.append (store.fragment graph).2) := by
    simp [store, Fragment.shift, addState_append, Nat.add_assoc]
  simp only [GraphStore.wire, fragment, same, addEdges_append]

/-- Behind a graph the construction makes the same as in the empty graph, and all of it new. -/
theorem lockstep_append (base : Graph) :
    (thompson store).Lockstep (thompson store) (Fragment.shift base.size) base.append WellFormed
      Constructed where
  ready made := made.exists_built.elim fun _ built => built.wellFormed
  empty wf := ⟨.empty wf, wire_append base _ _ _ fun _ => rfl⟩
  literal c _ wf := ⟨.literal wf c, wire_append base _ _ _ fun _ => rfl⟩
  concat left right := by
    refine ⟨.concat left right, Prod.ext rfl ?_⟩
    exact addEdge_append base _ (.epsilon _ _)
  alternation left right := ⟨.alternation left right, wire_append base _ _ _ fun _ => rfl⟩
  quantified q _ _ operand inner := by
    have same (new : Fragment) :
        Fragment.quantifiedEdges (operand.shift base.size) (new.shift base.size) q =
          (Fragment.quantifiedEdges operand new q).map (Edge.shift base.size) := by
      cases q <;> rfl
    exact ⟨.quantified inner q, wire_append base _ (fun new => operand.quantifiedEdges new q)
      (fun new => (operand.shift base.size).quantifiedEdges new q) same⟩

/-! ## What is behind a graph stays there -/

/-- An edge that leaves a new state is one of the graph behind. -/
theorem exists_of_hasEdge_append {edge : Edge} (has : (base.append graph).HasEdge edge)
    (new : base.size ≤ edge.source) : ∃ own, graph.HasEdge own ∧ own.shift base.size = edge := by
  have state_eq := state_append base graph edge.source
  rw [if_neg (Nat.not_lt.mpr new)] at state_eq
  have source_eq : base.size + (edge.source - base.size) = edge.source := Nat.add_sub_of_le new
  cases edge with
  | epsilon source target =>
    rw [Edge.source_epsilon] at state_eq source_eq
    rw [HasEdge, epsilons, state_eq] at has
    obtain ⟨own, mem, rfl⟩ := List.mem_map.mp has
    exact ⟨.epsilon (source - base.size) own, mem, by rw [Edge.shift, source_eq]⟩
  | consuming source c target =>
    rw [Edge.source_consuming] at state_eq source_eq
    rw [HasEdge, targets, state_eq, State.targets, State.shift, Transitions.targets_shift] at has
    obtain ⟨own, mem, rfl⟩ := List.mem_map.mp has
    exact ⟨.consuming (source - base.size) c own, mem, by rw [Edge.shift, source_eq]⟩

/-- From `before` to `after` states have been added, the old ones have not changed, and the new ones
have edges to new ones only, among which are the ends of the fragment. -/
structure Appends (before after : Graph) (fragment : Fragment) : Prop extends
    before.Grows after where
  target_mem : ∀ edge, after.HasEdge edge → before.size ≤ edge.source →
    before.size ≤ edge.target ∧ edge.target < after.size
  start_mem : before.size ≤ fragment.start ∧ fragment.start < after.size
  out_mem : before.size ≤ fragment.out ∧ fragment.out < after.size
  wellFormed : before.WellFormed → after.WellFormed

theorem grows_append (base graph : Graph) : base.Grows (base.append graph) where
  size_le := by simp
  state_eq id lt := by rw [state_append, if_pos lt]

theorem Constructed.appends (made : Constructed {} own fragment) (base : Graph) :
    base.Appends (base.append own) (fragment.shift base.size) := by
  obtain ⟨L, built⟩ := made.exists_built
  have start_lt := built.owns.lt_size _ built.owns.start_mem
  have out_lt := built.owns.lt_size _ built.owns.out_mem
  have target_mem (edge : Edge) (has : (base.append own).HasEdge edge)
      (new : base.size ≤ edge.source) :
      base.size ≤ edge.target ∧ edge.target < (base.append own).size := by
    obtain ⟨inner, hasInner, rfl⟩ := exists_of_hasEdge_append has new
    have target_lt := built.wellFormed inner hasInner
    simp [target_lt]
  refine ⟨grows_append base own, target_mem, ?_, ?_, fun wf edge has => ?_⟩
  · simp [Fragment.shift, start_lt]
  · simp [Fragment.shift, out_lt]
  · by_cases old : edge.source < base.size
    · have target_lt := wf edge (((grows_append base own).hasEdge_iff old).mp has)
      exact target_lt.trans_le (grows_append base own).size_le
    · exact (target_mem edge has (Nat.le_of_not_lt old)).2

end Graph

/-! ## The rules of the reader -/

namespace Reader

open RegularPattern.Graph

/-- What is read into a graph is what is read into the empty graph, with all numbers moved up behind
the states of the graph; if it can be read, then nothing else has happened to the graph. -/
structure Relocatable {bound : Nat} (read : Graph → Outcome Graph Fragment bound) : Prop where
  read_eq : ∀ graph, read graph = (read {}).map (Fragment.shift graph.size) graph.append
  appends : ∀ graph fragment rest here after shorter,
    read graph = .read fragment rest here after shorter → graph.Appends after fragment

/-- In step with reading into the empty graph, behind any graph. -/
theorem relocatable_of_inStep {bound : Nat} {read : Graph → Outcome Graph Fragment bound}
    (inStep : ∀ graph : Graph, (read (graph.append {})).InStep (Fragment.shift graph.size) graph.append
      (Constructed {}) (read {})) : Relocatable read := by
  simp only [append_empty] at inStep
  refine ⟨fun graph => (inStep graph).eq_map, ?_⟩
  intro graph fragment rest here after shorter success
  have same := inStep graph
  rw [success] at same
  cases alone : read {} with
  | failed fault own =>
    rw [alone] at same
    cases same
  | read piece left there own shorter' =>
    rw [alone] at same
    obtain ⟨made, eq⟩ := same
    cases eq
    exact made.appends graph

/-- Each rule does in every graph what it does in the empty graph, and appends what it makes. -/
theorem relocatable_rules (input : List Char) (position : Nat) :
    Relocatable (expression (thompson store) input position) ∧
      Relocatable (term (thompson store) input position) ∧
      Relocatable (factor (thompson store) input position) ∧
      Relocatable (atom (thompson store) input position) := by
  have wf : ({} : Graph).WellFormed := by decide
  refine ⟨relocatable_of_inStep fun graph => ?_, relocatable_of_inStep fun graph => ?_,
    relocatable_of_inStep fun graph => ?_, relocatable_of_inStep fun graph => ?_⟩
  all_goals obtain ⟨expression, -, term, -, factor, atom⟩ := inStep_rules (lockstep_append graph)
  · exact expression input position {} wf
  · exact term input position {} wf
  · exact factor input position {} wf
  · exact atom input position {} wf

/-- A loop that is read behind a graph of six states, up to a closing parenthesis. -/
theorem relocatable_rules_of_loop :
    let own := ((thompson store).quantified .zeroOrMore ⟨0, 1⟩ ((thompson store).literal 'b' {}).2).2
    expression (thompson store) "b*)".toList 0 {} = .read ⟨2, 3⟩ [')'] 2 own (by decide) ∧
      expression (thompson store) "b*)".toList 0 loopAndLetter =
        .read ⟨8, 9⟩ [')'] 2 (loopAndLetter.append own) (by decide) ∧
      loopAndLetter.Appends (loopAndLetter.append own) ⟨8, 9⟩ := by
  intro own
  have alone : expression (thompson store) "b*)".toList 0 {} =
      .read ⟨2, 3⟩ [')'] 2 own (by decide) := by
    cbv
  obtain ⟨relocates, -, -, -⟩ := relocatable_rules "b*)".toList 0
  have behind := relocates.read_eq loopAndLetter
  rw [alone] at behind
  exact ⟨alone, behind, relocates.appends _ _ _ _ _ _ behind⟩

end Reader

end RegularPattern
