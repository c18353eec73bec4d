import Mathlib
import RegularPattern.Proofs.Graph.Edges
import RegularPattern.Proofs.Graph.PathLanguage

/-!
# Wiring closed parts of a graph

A closed part of a graph has no edges to or from the rest of it. Edges that lead from exits to
entries of such parts wire them into one. What the wired graph reads from an entry on is bounded by
any solution of a system of inequations, one for each new edge: what the edge reads, followed by
what is read from the entry that it leads to, is among what may be read behind the exit that it
leaves. Every operation of the construction is such a wiring; a fresh state is a part by itself.

## Main definitions

* `Graph.Closed` — states that no edge enters or leaves.
* `Graph.Owns` — a fragment that is a closed part of a graph, with an exit that no edge leaves.
* `Part`, `Part.Joins` — a closed part with what is read behind it, and the inequation of an edge.
-/

namespace RegularPattern

namespace Graph

variable {graph wired : Graph}

/-- No edge enters or leaves these states. -/
def Closed (graph : Graph) (states : Set StateId) : Prop :=
  ∀ edge, graph.HasEdge edge → (edge.source ∈ states ↔ edge.target ∈ states)

/-- A fragment with the states that belong to it. Its exit is a sink; its entry may be entered. -/
structure Owns (graph : Graph) (fragment : Fragment) (states : Set StateId) : Prop where
  start_mem : fragment.start ∈ states
  out_mem : fragment.out ∈ states
  start_ne_out : fragment.start ≠ fragment.out
  lt_size : ∀ s ∈ states, s < graph.size
  closed : graph.Closed states
  sink : ∀ edge, graph.HasEdge edge → edge.source ≠ fragment.out

/-- A number that belongs to no state yet has no edges. -/
theorem WellFormed.closed_singleton (wf : graph.WellFormed) {id : StateId}
    (ge : graph.size ≤ id) : graph.Closed {id} := by
  intro edge has
  have source := (source_lt_of_hasEdge has).trans_le ge
  have target := (wf edge has).trans_le ge
  simp [source.ne, target.ne]

theorem between_self_of_sink {s : StateId} (sink : ∀ edge, graph.HasEdge edge → edge.source ≠ s) :
    graph.between s s = 1 := by
  apply le_antisymm _ (one_le_between graph s)
  intro word path
  cases path with
  | refl => rfl
  | epsilon edge => exact absurd rfl (sink (.epsilon _ _) edge)
  | consuming edge => exact absurd rfl (sink (.consuming _ _ _) edge)

end Graph

/-- A closed part of a graph, with what is going to be read behind its exit. -/
structure Part (graph : Graph) extends Fragment where
  owned : Set StateId
  start_mem : start ∈ owned
  out_mem : out ∈ owned
  closed : graph.Closed owned
  rest : Language Char

namespace Part

variable {graph wired : Graph} {parts : List (Part graph)}

/-- What is read from the entry of a part on. -/
def whole (part : Part graph) : Language Char :=
  graph.language part.toFragment * part.rest

/-- An edge from the exit of `p` to the entry of `q` reads nothing that may not stand behind `p`. -/
structure Joins (edge : Edge) (p q : Part graph) : Prop where
  source_eq : edge.source = p.out
  target_eq : edge.target = q.start
  le_rest : edge.label * q.whole ≤ p.rest

/-- Parts without common states. -/
def Apart (parts : List (Part graph)) : Prop :=
  parts.Pairwise fun p q => Disjoint p.owned q.owned

instance : Std.Symm fun p q : Part graph => Disjoint p.owned q.owned where
  symm _ _ disjoint := disjoint.symm

theorem Apart.eq_of_mem (apart : Apart parts) {p q : Part graph} (memP : p ∈ parts)
    (memQ : q ∈ parts) {s : StateId} (inP : s ∈ p.owned) (inQ : s ∈ q.owned) : p = q := by
  by_contra ne
  have disjoint : Disjoint p.owned q.owned := List.Pairwise.forall apart memP memQ ne
  exact Set.disjoint_left.mp disjoint inP inQ

/-- What is read from the states of wired parts on is bounded by what is read behind them. -/
theorem between_le_whole (apart : Apart parts)
    (edges : ∀ edge, wired.HasEdge edge →
      graph.HasEdge edge ∨ ∃ p ∈ parts, ∃ q ∈ parts, Joins edge p q)
    {first last : Part graph} (memFirst : first ∈ parts) (memLast : last ∈ parts)
    (exit : 1 ≤ last.rest) : wired.between first.start last.out ≤ first.whole := by
  -- The bound of a state: what leads to the exit of its part, and then on.
  let bound (s : StateId) : Language Char :=
    {word | ∀ p ∈ parts, s ∈ p.owned → word ∈ graph.between s p.out * p.rest}
  have bound_le {p : Part graph} (mem : p ∈ parts) {s : StateId} (inP : s ∈ p.owned) :
      bound s ≤ graph.between s p.out * p.rest := fun word inBound => inBound p mem inP
  have le : wired.between first.start last.out ≤ bound first.start := by
    apply Graph.between_le_of_backward
    · intro word empty p mem inP
      obtain rfl := apart.eq_of_mem mem memLast inP last.out_mem
      obtain rfl := (Language.mem_one word).mp empty
      exact Language.append_mem_mul (Graph.one_le_between graph _ rfl) (exit rfl)
    · intro edge has word inBound p mem inP
      rcases edges edge has with old | ⟨p', memP', q, memQ, joins⟩
      · have inside := (p.closed edge old).mp inP
        have grown : edge.label * (graph.between edge.target p.out * p.rest) ≤
            graph.between edge.source p.out * p.rest := by
          rw [← mul_assoc]
          exact mul_le_mul_left (Graph.label_mul_between_le old _) _
        exact grown (mul_le_mul_right (bound_le mem inside) _ inBound)
      · rw [joins.source_eq] at inP ⊢
        obtain rfl := apart.eq_of_mem mem memP' inP p'.out_mem
        have inside : edge.target ∈ q.owned := joins.target_eq ▸ q.start_mem
        have entered : bound edge.target ≤ q.whole := by
          have := bound_le memQ inside
          rwa [joins.target_eq] at this ⊢
        have passed : p.rest ≤ graph.between p.out p.out * p.rest :=
          le_mul_of_one_le_left' (Graph.one_le_between graph _)
        exact passed (joins.le_rest (mul_le_mul_right entered _ inBound))
  exact le.trans (bound_le memFirst first.start_mem)

end Part

end RegularPattern
