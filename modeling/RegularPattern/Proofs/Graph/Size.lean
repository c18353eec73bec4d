import RegularPattern.Proofs.Graph.Construction

/-!
# How many states are constructed

Every operation but concatenation makes two states, and a group makes none.

## Main definitions

* `Tree.wirings` — how many operations make states.
-/

namespace RegularPattern

/-- How many operations make states for a derivation. The empty word is made only for a term without
factors. -/
def Tree.wirings : {rule : Rule} → Tree rule → Nat
  | _, plain _ => 1
  | _, escaped _ => 1
  | _, group inner => inner.wirings
  | _, bare atom => atom.wirings
  | _, quantified atom _ => atom.wirings + 1
  | _, nothing => 1
  | _, append nothing last => last.wirings
  | _, append (append init middle) last => (append init middle).wirings + last.wirings
  | _, single term => term.wirings
  | _, bar init last => init.wirings + last.wirings + 1

theorem Graph.size_build {rule : Rule} (tree : Tree rule) (graph : Graph) :
    (tree.build (thompson store) graph).2.size = graph.size + 2 * tree.wirings := by
  induction tree generalizing graph with
  | plain c => exact size_wire _ graph
  | escaped c => exact size_wire _ graph
  | group inner ih => exact ih graph
  | bare atom ih => exact ih graph
  | quantified atom q ih =>
    refine (size_wire _ _).trans ?_
    rw [ih, Tree.wirings]
    rfl
  | nothing => exact size_wire _ graph
  | append init last ihInit ihLast =>
    cases init with
    | nothing => exact ihLast graph
    | append init middle =>
      rw [Tree.build, size_concat, ihLast, ihInit, Tree.wirings]
      ring
  | single term ih => exact ih graph
  | bar init last ihInit ihLast =>
    refine (size_wire _ _).trans ?_
    rw [ihLast, ihInit, Tree.wirings]
    ring

end RegularPattern
