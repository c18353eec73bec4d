import RegularPattern.Flags
import RegularPattern.Graph.Fragment

/-!
# Automata of patterns

A compiled pattern: the graph that Thompson's construction builds while the pattern is read, with
the fragment that spans it.

## Main definitions

* `Automaton` — graph, entry, exit, and the pattern and flags that it was made from.
* `compile` — the automaton of a pattern, or what is wrong with the pattern.
* `Automaton.state?` — a state by number, with an error for a number that is out of range.
-/

namespace RegularPattern

/-- A compiled pattern. -/
structure Automaton extends Graph, Fragment where
  pattern : String
  flags : Flags
  deriving DecidableEq

/-- Compiles a pattern. -/
def compile (pattern : String) (flags : Flags) : Except PatternError Automaton :=
  match (thompson Graph.store).read pattern.toList {} with
  | (.error fault, _) => .error { fault with pattern }
  | (.ok fragment, graph) => .ok { graph, fragment with pattern, flags }

/-- A state number that is not below the number of states. -/
structure OutOfRange where
  index : Nat
  size : Nat
  deriving DecidableEq

/-- The text of an access that is out of range. -/
def OutOfRange.message (error : OutOfRange) : String :=
  "index out of bounds: the len is " ++ toString error.size ++ " but the index is "
    ++ toString error.index

namespace Automaton

/-- A state of the automaton. -/
def state? (automaton : Automaton) (id : StateId) : Except OutOfRange State :=
  match automaton.states[id]? with
  | some state => .ok state
  | none => .error ⟨id, automaton.size⟩

/-- Entry, exit and the ends of all edges are states of the automaton. -/
structure WellFormed (automaton : Automaton) : Prop where
  graph : automaton.toGraph.WellFormed
  start_lt : automaton.start < automaton.size
  out_lt : automaton.out < automaton.size

theorem wellFormed_iff (automaton : Automaton) :
    automaton.WellFormed ↔ automaton.toGraph.WellFormed ∧ automaton.start < automaton.size ∧
      automaton.out < automaton.size :=
  ⟨fun h => ⟨h.graph, h.start_lt, h.out_lt⟩, fun h => ⟨h.1, h.2.1, h.2.2⟩⟩

instance (automaton : Automaton) : Decidable automaton.WellFormed :=
  decidable_of_iff _ automaton.wellFormed_iff.symm

end Automaton

end RegularPattern
