import RegularPattern.Proofs.Graph.Shape
import RegularPattern.Proofs.Pattern.Lockstep

/-!
# No edge twice

The construction never adds an edge that is there already, nor one with an end outside the graph:
in the store that gives up at such an edge it makes the same graph. The new edges of an operation
touch a fresh state, but for that of a concatenation, which leaves a state without edges.
-/

namespace RegularPattern.Graph

variable {graph : Graph} {first second operand : Fragment}

theorem strictStore_addEdges {edges : List Edge} (nodup : edges.Nodup)
    (new : ∀ edge ∈ edges, ¬graph.HasEdge edge)
    (known : ∀ edge ∈ edges, edge.source < graph.size ∧ edge.target < graph.size) :
    strictStore.addEdges edges (some graph) = some (store.addEdges edges graph) := by
  induction edges generalizing graph with
  | nil => rfl
  | cons edge edges ih =>
    obtain ⟨absent, distinct⟩ := List.nodup_cons.mp nodup
    obtain ⟨here, others⟩ := List.forall_mem_cons.mp known
    have added : strictStore.addEdge edge (some graph) = some (graph.addEdge edge) :=
      if_pos ⟨here.1, here.2, new edge List.mem_cons_self⟩
    have later : strictStore.addEdges edges (some (graph.addEdge edge)) =
        some (store.addEdges edges (graph.addEdge edge)) := by
      apply ih distinct
      · intro other mem has
        rcases (hasEdge_addEdge here.1 other).mp has with old | rfl
        · exact new other (List.mem_cons_of_mem _ mem) old
        · exact absent mem
      · simpa using others
    simp only [GraphStore.addEdges, List.foldl_cons] at later ⊢
    rw [added, later]
    rfl

/-- Narrow edges between operands are all new. -/
theorem Wires.strictStore_wire {wf : graph.WellFormed} {edges : Fragment → List Edge}
    {rest : Language Char} {operands : List (Part graph)}
    (wires : graph.Wires wf edges rest operands) {outs starts : List StateId}
    (narrow : Fragment.Narrow ⟨graph.size, graph.size + 1⟩ outs starts
      (edges ⟨graph.size, graph.size + 1⟩)) :
    strictStore.wire edges (some graph) =
      ((store.wire edges graph).1, some (store.wire edges graph).2) := by
  have added : strictStore.addEdges (edges ⟨graph.size, graph.size + 1⟩)
      (some graph.addState.addState) =
      some (store.addEdges (edges ⟨graph.size, graph.size + 1⟩) graph.addState.addState) := by
    apply strictStore_addEdges narrow.nodup
    · intro edge mem has
      rw [hasEdge_addState, hasEdge_addState] at has
      rcases narrow.touches edge mem with source | target
      · exact not_lt.mpr source (source_lt_of_hasEdge has)
      · exact not_lt.mpr target (wf edge has)
    · intro edge mem
      have target_lt := wires.wellFormed edge ((wires.hasEdge_iff edge).mpr (Or.inr mem))
      rw [size_wire] at target_lt
      rw [size_addState, size_addState]
      exact ⟨wires.source_lt edge mem, target_lt⟩
  exact Prod.ext rfl added

/-! ## One operation -/

theorem strictStore_empty (wf : graph.WellFormed) :
    (thompson strictStore).empty (some graph) =
      (((thompson store).empty graph).1, some ((thompson store).empty graph).2) :=
  (wires_empty wf).strictStore_wire (.empty graph.size)

theorem strictStore_literal (wf : graph.WellFormed) (c : Char) :
    (thompson strictStore).literal c (some graph) =
      (((thompson store).literal c graph).1, some ((thompson store).literal c graph).2) :=
  (wires_literal wf c).strictStore_wire (.literal graph.size c)

namespace Built

variable {before middle after : Graph} {L M : Language Char}

theorem strictStore_concat (left : before.Built middle first L)
    (right : middle.Built after second M) :
    (thompson strictStore).concat first second (some after) =
      (((thompson store).concat first second after).1,
        some ((thompson store).concat first second after).2) := by
  have ownsLeft := left.owns_left right
  have added : strictStore.addEdge (.epsilon first.out second.start) (some after) =
      some (after.addEdge (.epsilon first.out second.start)) :=
    if_pos ⟨ownsLeft.lt_size _ ownsLeft.out_mem, right.owns.lt_size _ right.owns.start_mem,
      fun has => ownsLeft.sink _ has rfl⟩
  exact Prod.ext rfl added

theorem strictStore_alternation (left : before.Built middle first L)
    (right : middle.Built after second M) :
    (thompson strictStore).alternation first second (some after) =
      (((thompson store).alternation first second after).1,
        some ((thompson store).alternation first second after).2) := by
  have ownsLeft := left.owns_left right
  have disjoint := Set.Ico_disjoint_Ico_same (a := before.size) (b := middle.size) (c := after.size)
  exact (wires_alternation right.wellFormed ownsLeft right.owns disjoint).strictStore_wire
    (ownsLeft.narrow_alternation right.owns disjoint)

theorem strictStore_quantified (inner : before.Built after operand L) (q : Quantifier) :
    (thompson strictStore).quantified q operand (some after) =
      (((thompson store).quantified q operand after).1,
        some ((thompson store).quantified q operand after).2) :=
  (wires_quantified inner.wellFormed inner.owns q).strictStore_wire (inner.owns.narrow_quantified q)

end Built

/-! ## Derivations and patterns -/

/-- No edge of a construction was there before, and none leaves the graph. -/
theorem build_strictStore {rule : Rule} (tree : Tree rule) (wf : graph.WellFormed) :
    tree.build (thompson strictStore) (some graph) =
      ((tree.build (thompson store) graph).1, some (tree.build (thompson store) graph).2) := by
  induction tree generalizing graph with
  | plain c => exact strictStore_literal wf c
  | escaped c => exact strictStore_literal wf (Reader.unescape c)
  | group inner ih => exact ih wf
  | bare atom ih => exact ih wf
  | quantified atom q ih =>
    simp only [Tree.build, ih wf]
    exact (built_build atom wf).strictStore_quantified q
  | nothing => exact strictStore_empty wf
  | append init last ihInit ihLast =>
    cases init with
    | nothing => exact ihLast wf
    | append init middle =>
      have left := built_build (init.append middle) wf
      rw [Tree.build, ihInit wf]
      simp only [ihLast left.wellFormed]
      exact left.strictStore_concat (built_build last left.wellFormed)
  | single term ih => exact ih wf
  | bar init last ihInit ihLast =>
    have left := built_build init wf
    simp only [Tree.build, ihInit wf, ihLast left.wellFormed]
    exact left.strictStore_alternation (built_build last left.wellFormed)

theorem lockstep_strictStore :
    (thompson store).Lockstep (thompson strictStore) id some WellFormed Constructed where
  ready made := made.exists_built.elim fun _ built => built.wellFormed
  empty wf := ⟨.empty wf, strictStore_empty wf⟩
  literal c _ wf := ⟨.literal wf c, strictStore_literal wf c⟩
  concat left right := by
    obtain ⟨L, builtLeft⟩ := left.exists_built
    obtain ⟨M, builtRight⟩ := right.exists_built
    exact ⟨.concat left right, builtLeft.strictStore_concat builtRight⟩
  alternation left right := by
    obtain ⟨L, builtLeft⟩ := left.exists_built
    obtain ⟨M, builtRight⟩ := right.exists_built
    exact ⟨.alternation left right, builtLeft.strictStore_alternation builtRight⟩
  quantified q _ _ _ inner := by
    obtain ⟨L, built⟩ := inner.exists_built
    exact ⟨.quantified inner q, built.strictStore_quantified q⟩

/-- Neither is such an edge added while a faulty pattern is read, up to its fault. -/
theorem read_strictStore (pattern : List Char) (wf : graph.WellFormed) :
    (thompson strictStore).read pattern (some graph) =
      (((thompson store).read pattern graph).1, some ((thompson store).read pattern graph).2) := by
  have same := lockstep_strictStore.read_eq pattern wf
  rwa [Except.map_id] at same

end RegularPattern.Graph
