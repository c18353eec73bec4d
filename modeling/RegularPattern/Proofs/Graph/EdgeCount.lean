import RegularPattern.Proofs.Graph.Size
import RegularPattern.Proofs.Graph.Strict
import RegularPattern.Proofs.Pattern.Items

/-!
# How many edges are constructed

An edge that is new adds one to the number of edges of its graph. The construction adds new edges
only, as the store shows that gives up at any other edge; so the number of edges follows the
operations. Concatenations need not be counted: each makes one piece of two, as an alternation does,
and pieces begin as literals and empty terms.

## Main definitions

* `Transitions.count` — how many consuming edges leave a state.
-/

namespace RegularPattern

theorem Tree.length_items {rule : Rule} (tree : Tree rule) : tree.items.length = tree.wirings := by
  induction tree with
  | append init last ihInit ihLast =>
    cases init with
    | nothing => exact ihLast
    | append init middle => rw [items, List.length_append, ihInit, ihLast, wirings]
  | _ => simp_all [items, wirings, Nat.add_assoc]

/-! ## One edge -/

theorem length_appendNew_of_not_mem {targets : List StateId} {target : StateId}
    (new : target ∉ targets) : (appendNew targets target).length = targets.length + 1 := by
  grind [appendNew]

namespace Transitions

/-- How many consuming edges there are. -/
def count (transitions : Transitions) : Nat :=
  (transitions.map fun entry => entry.2.length).sum

@[simp] theorem count_nil : count [] = 0 := rfl

@[simp] theorem count_cons (entry : Char × List StateId) (rest : Transitions) :
    count (entry :: rest) = entry.2.length + count rest := by
  simp [count]

theorem count_insertTarget {transitions : Transitions} {c : Char} {target : StateId}
    (new : target ∉ targets transitions c) :
    count (insertTarget c target transitions) = count transitions + 1 := by
  fun_induction insertTarget c target transitions with
  | case1 => rfl
  | case2 d here rest lt => simp; omega
  | case3 here rest =>
    rw [targets_cons, if_pos rfl] at new
    simp [length_appendNew_of_not_mem new]
    omega
  | case4 d here rest notLt ne ih =>
    rw [targets_cons, if_neg ne] at new
    simp [ih new]
    omega

end Transitions

namespace State

theorem edgeCount_eq (state : State) :
    state.edgeCount = state.epsilons.length + state.transitions.count := by
  rw [edgeCount]
  generalize state.epsilons.length = count
  generalize state.transitions = transitions
  induction transitions generalizing count with
  | nil => rfl
  | cons entry rest ih => simp [ih, Nat.add_assoc]

end State

namespace Graph

variable {graph after : Graph}

theorem edgeCount_eq (graph : Graph) :
    graph.edgeCount = (graph.states.toList.map State.edgeCount).sum := by
  rw [edgeCount, ← Array.foldl_toList, List.sum_eq_foldl_nat, List.foldl_map]

@[simp] theorem edgeCount_addState (graph : Graph) :
    graph.addState.edgeCount = graph.edgeCount := by
  simp [edgeCount_eq, addState, State.edgeCount]

theorem edgeCount_addEdge_state {edge : Edge} (new : ¬graph.HasEdge edge) :
    ((graph.state edge.source).addEdge edge).edgeCount =
      (graph.state edge.source).edgeCount + 1 := by
  simp only [State.edgeCount_eq]
  cases edge with
  | epsilon source target =>
    have more : (appendNew (graph.state source).epsilons target).length =
        (graph.state source).epsilons.length + 1 := length_appendNew_of_not_mem new
    simp only [Edge.source, State.addEdge, State.addEpsilon]
    omega
  | consuming source c target =>
    have more := Transitions.count_insertTarget new
    simp only [Edge.source, State.addEdge, State.addTransition]
    omega

theorem sum_map_modify {α : Type} {f : α → α} {count : α → Nat} {l : List α} {i : Nat}
    (lt : i < l.length) (more : count (f l[i]) = count l[i] + 1) :
    ((l.modify i f).map count).sum = (l.map count).sum + 1 := by
  induction l generalizing i with
  | nil => cases lt
  | cons a l ih =>
    cases i with
    | zero => simp_all; omega
    | succ i =>
      have others := ih (i := i) (by simpa using lt) (by simpa using more)
      simp [others]
      omega

/-- A new edge is one edge more. -/
theorem edgeCount_of_addEdge? {edge : Edge} (added : graph.addEdge? edge = some after) :
    after.edgeCount = graph.edgeCount + 1 := by
  unfold addEdge? at added
  split at added
  · next conditions =>
    obtain ⟨known, -, new⟩ := conditions
    obtain rfl := Option.some.inj added
    have more := edgeCount_addEdge_state new
    have lt : edge.source < graph.states.toList.length := by simpa [size] using known
    have here : graph.state edge.source = graph.states.toList[edge.source] := by
      simp [state, show edge.source < graph.states.size from known]
    rw [here] at more
    rw [edgeCount_eq, edgeCount_eq, addEdge, Array.toList_modify, sum_map_modify lt more]
  · cases added

/-- A lost store stays lost. -/
theorem strictStore_addEdges_none (edges : List Edge) :
    strictStore.addEdges edges none = none := by
  induction edges with
  | nil => rfl
  | cons edge edges ih => exact ih

theorem edgeCount_of_addEdges {edges : List Edge}
    (added : strictStore.addEdges edges (some graph) = some after) :
    after.edgeCount = graph.edgeCount + edges.length := by
  induction edges generalizing graph with
  | nil =>
    obtain rfl := Option.some.inj added
    rfl
  | cons edge edges ih =>
    have rest : strictStore.addEdges edges (graph.addEdge? edge) = some after := added
    cases first : graph.addEdge? edge with
    | none =>
      rw [first, strictStore_addEdges_none] at rest
      cases rest
    | some middle =>
      rw [first] at rest
      have one := edgeCount_of_addEdge? first
      have others := ih rest
      rw [List.length_cons]
      omega

theorem edgeCount_of_wire {edges : Fragment → List Edge} {fragment : Fragment}
    (wired : strictStore.wire edges (some graph) = (fragment, some after)) :
    after.edgeCount = graph.edgeCount + (edges ⟨graph.size, graph.size + 1⟩).length := by
  have added : strictStore.addEdges (edges ⟨graph.size, graph.size + 1⟩)
      (some graph.addState.addState) = some after := congrArg Prod.snd wired
  have count := edgeCount_of_addEdges added
  rwa [edgeCount_addState, edgeCount_addState] at count

theorem edgeCount_of_concat {first second whole : Fragment}
    (joined : (thompson strictStore).concat first second (some graph) = (whole, some after)) :
    after.edgeCount = graph.edgeCount + 1 :=
  edgeCount_of_addEdge? (congrArg Prod.snd joined)

theorem edgeCount_of_quantified {q : Quantifier} {operand whole : Fragment}
    (wired : (thompson strictStore).quantified q operand (some graph) = (whole, some after)) :
    after.edgeCount = graph.edgeCount + 3 := by
  have three (new : Fragment) : (operand.quantifiedEdges new q).length = 3 := by cases q <;> rfl
  have wired : strictStore.wire (fun new => operand.quantifiedEdges new q) (some graph) =
      (whole, some after) := wired
  rw [edgeCount_of_wire wired, three]

/-! ## Derivations -/

theorem edgeCount_build {rule : Rule} (tree : Tree rule) (wf : graph.WellFormed) :
    (tree.build (thompson store) graph).2.edgeCount + 1 =
      graph.edgeCount + 2 * tree.items.length + tree.items.count .quantifier
        + tree.items.count .bar := by
  induction tree generalizing graph with
  | plain c => exact congrArg (· + 1) (edgeCount_of_wire (strictStore_literal wf c))
  | escaped c =>
    exact congrArg (· + 1) (edgeCount_of_wire (strictStore_literal wf (Reader.unescape c)))
  | group inner ih => exact ih wf
  | bare atom ih => exact ih wf
  | quantified atom q ih =>
    have inner := ih wf
    have wired := edgeCount_of_quantified ((built_build atom wf).strictStore_quantified q)
    simp only [Tree.items, Tree.build, List.length_append, List.count_append] at wired ⊢
    grind
  | nothing => exact congrArg (· + 1) (edgeCount_of_wire (strictStore_empty wf))
  | append init last ihInit ihLast =>
    cases init with
    | nothing => exact ihLast wf
    | append init middle =>
      have left := built_build (init.append middle) wf
      have first := ihInit wf
      have second := ihLast left.wellFormed
      have joined :=
        edgeCount_of_concat (left.strictStore_concat (built_build last left.wellFormed))
      simp only [Tree.items, Tree.build, List.length_append, List.count_append] at joined ⊢
      omega
  | single term ih => exact ih wf
  | bar init last ihInit ihLast =>
    have left := built_build init wf
    have first := ihInit wf
    have second := ihLast left.wellFormed
    have wired :=
      edgeCount_of_wire (left.strictStore_alternation (built_build last left.wellFormed))
    simp only [Tree.items, Tree.build, List.length_append, List.count_append] at wired ⊢
    grind [Fragment.alternationEdges]

end Graph

end RegularPattern
