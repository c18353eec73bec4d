import RegularPattern.Graph.Path

/-!
# Depth-first search

The search from a list of states that follows epsilon edges in their order, visits a state before
what its edges reach, and passes over what was seen before. Main statement: the order of a search
is determined by where it begins and by what was seen.

## Main definitions

* `Graph.DepthFirst` — the search, as a relation between where it begins and its order.
-/

namespace RegularPattern.Graph

/-- From the states `todo`, with the states `seen` passed over, the search visits `order`. -/
inductive DepthFirst (graph : Graph) :
    (todo seen order : List StateId) → Prop where
  | done (seen : List StateId) : DepthFirst graph [] seen []
  | skip {s : StateId} {todo seen order : List StateId} (old : s ∈ seen)
      (others : DepthFirst graph todo seen order) : DepthFirst graph (s :: todo) seen order
  | visit {s : StateId} {todo seen below after : List StateId} (new : s ∉ seen)
      (deeper : DepthFirst graph (graph.epsilons s) (s :: seen) below)
      (others : DepthFirst graph todo (below ++ s :: seen) after) :
      DepthFirst graph (s :: todo) seen (s :: below ++ after)

theorem DepthFirst.unique {graph : Graph} {todo seen first second : List StateId}
    (h : graph.DepthFirst todo seen first) (g : graph.DepthFirst todo seen second) :
    first = second := by
  induction h generalizing second with
  | done => cases g; rfl
  | skip old _ ih =>
    cases g with
    | skip _ others => exact ih others
    | visit new => exact absurd old new
  | visit new _ _ ihDeeper ihOthers =>
    cases g with
    | skip old => exact absurd old new
    | visit _ deeper others =>
      obtain rfl := ihDeeper deeper
      obtain rfl := ihOthers others
      rfl

end RegularPattern.Graph
