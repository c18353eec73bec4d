import RegularPattern.Graph.Basic
import RegularPattern.Pattern.Reader

/-!
# Thompson's construction

A fragment is a part of a graph with one way in and one way out. Each operation on expressions
wires the fragments of its operands together: concatenation by one epsilon edge, all others by two
fresh states, `start` before `out`, and a few edges. The edges of each operation stand in one list,
in the order in which they are added.

The construction runs over any `GraphStore`, that is, over anything in which one can make a fresh
fragment and add an edge. The graph itself is such a store.

## Main definitions

* `Fragment` — entry and exit.
* `GraphStore` — what the construction needs of the thing that it builds in.
* `thompson` — the construction.
* `Graph.store` — graphs as a store.
* `Graph.strictStore` — graphs as a store that gives up at an edge that is there already or that
  has an end outside the graph.
-/

namespace RegularPattern

/-- Entry and exit of a part of a graph. -/
structure Fragment where
  start : StateId
  out : StateId
  deriving DecidableEq

/-- A thing in which fragments are made and joined by edges. -/
structure GraphStore (σ : Type) where
  /-- Two fresh states, without edges. -/
  fragment : σ → Fragment × σ
  addEdge : Edge → σ → σ

namespace GraphStore

variable {σ : Type}

def addEdges (store : GraphStore σ) (edges : List Edge) (s : σ) : σ :=
  edges.foldl (fun s edge => store.addEdge edge s) s

/-- A fresh fragment, with edges that may depend on it. -/
def wire (store : GraphStore σ) (edges : Fragment → List Edge) (s : σ) : Fragment × σ :=
  let fresh := store.fragment s
  (fresh.1, store.addEdges (edges fresh.1) fresh.2)

end GraphStore

namespace Fragment

def emptyEdges (new : Fragment) : List Edge :=
  [.epsilon new.start new.out]

def literalEdges (c : Char) (new : Fragment) : List Edge :=
  [.consuming new.start c new.out]

def alternationEdges (left right new : Fragment) : List Edge :=
  [.epsilon new.start left.start, .epsilon new.start right.start,
    .epsilon left.out new.out, .epsilon right.out new.out]

/-- A repeated operand leaves again through the fresh `start`. -/
def quantifiedEdges (operand new : Fragment) : Quantifier → List Edge
  | .zeroOrMore =>
    [.epsilon new.start operand.start, .epsilon new.start new.out,
      .epsilon operand.out new.start]
  | .oneOrMore =>
    [.epsilon new.start operand.start, .epsilon operand.out new.start,
      .epsilon operand.out new.out]
  | .zeroOrOne =>
    [.epsilon new.start operand.start, .epsilon new.start new.out, .epsilon operand.out new.out]

end Fragment

/-- Thompson's construction. Concatenation makes no states. -/
def thompson {σ : Type} (store : GraphStore σ) : Construction σ Fragment where
  empty := store.wire Fragment.emptyEdges
  literal c := store.wire (Fragment.literalEdges c)
  concat first second s :=
    (⟨first.start, second.out⟩, store.addEdge (.epsilon first.out second.start) s)
  alternation left right := store.wire (Fragment.alternationEdges left right)
  quantified q operand := store.wire fun new => Fragment.quantifiedEdges operand new q

/-- Graphs as a store: fresh states come after all others. -/
def Graph.store : GraphStore Graph where
  fragment graph := (⟨graph.size, graph.size + 1⟩, graph.addState.addState)
  addEdge edge graph := graph.addEdge edge

/-- Adds an edge that is new and has both ends in the graph. -/
def Graph.addEdge? (graph : Graph) (edge : Edge) : Option Graph :=
  if edge.source < graph.size ∧ edge.target < graph.size ∧ ¬graph.HasEdge edge then
    some (graph.addEdge edge)
  else
    none

/-- Graphs as a store that is lost for good at the first edge that cannot be added. -/
def Graph.strictStore : GraphStore (Option Graph) where
  fragment
    | some graph => ((Graph.store.fragment graph).1, some (Graph.store.fragment graph).2)
    | none => (⟨0, 0⟩, none)
  addEdge edge graph := graph.bind fun graph => graph.addEdge? edge

end RegularPattern
