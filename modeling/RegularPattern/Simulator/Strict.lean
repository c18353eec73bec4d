import RegularPattern.Simulator.Run

/-!
# Matching with checked state numbers

The steps of a run once more, but given up as soon as a state is looked up whose number is out of
range, be it in the graph or among the stamps. On automata whose edges stay inside the graph this
never happens, and then nothing else differs.

## Main definitions

* `Simulator.closure?`, `Simulator.step?`, `Simulator.run?` — closure, step and run.
* `Simulator.rounds?` — draining cut into single rounds.
-/

namespace RegularPattern.Simulator

/-- Visits what is on the stack, as `drain` does. -/
def drain? (graph : Graph) (sim : Simulator) : Option Simulator :=
  match stacked : sim.stack with
  | [] => some sim
  | id :: rest =>
    have := pending_withStack graph stacked
    if known : id < sim.stamps.size ∧ id < graph.size then
      if fresh : (sim.withStack rest).onList id = false then
        have := pending_visit graph (sim.withStack rest) known.1 fresh
        drain? graph ((sim.withStack rest).visit graph id)
      else
        drain? graph (sim.withStack rest)
    else
      none
termination_by sim.pending graph

/-- One round of draining: the head of the stack is taken away, and is visited unless it is on the
newest list. There is no round without a stack, nor with a number that belongs to no state. -/
def round? (graph : Graph) (sim : Simulator) : Option Simulator :=
  match sim.stack with
  | [] => none
  | id :: rest =>
    if id < sim.stamps.size ∧ id < graph.size then
      some (if sim.onList id then sim.withStack rest else (sim.withStack rest).visit graph id)
    else
      none

/-- So many rounds, one after the other. -/
def rounds? (graph : Graph) : Nat → Simulator → Option Simulator
  | 0, sim => some sim
  | n + 1, sim => (sim.round? graph).bind (rounds? graph n)

def closure? (graph : Graph) (sim : Simulator) (id : StateId) : Option Simulator :=
  (sim.withStack (id :: sim.stack)).drain? graph

/-- The list of what one live state adds by consuming `c`. -/
def advance? (graph : Graph) (c : Char) (sim : Simulator) (id : StateId) : Option Simulator :=
  if id < graph.size then (graph.targets id c).foldlM (closure? graph) sim else none

def step? (graph : Graph) (sim : Simulator) (c : Char) : Option Simulator :=
  (sim.current.toList.foldlM (advance? graph c) sim.newList).map swap

def begin? (automaton : Automaton) (sim : Simulator) : Option Simulator :=
  (sim.newList.closure? automaton.toGraph automaton.start).map swap

def consume? (automaton : Automaton) (sim : Simulator) (events : Array Event) :
    List Char → Option (Verdict × Simulator)
  | [] =>
    if automaton.out < sim.stamps.size then
      some (⟨sim.onList automaton.out, events⟩, sim)
    else
      none
  | c :: rest =>
    if sim.current.isEmpty then
      some (⟨false, events.push (.exhausted c)⟩, sim)
    else
      (sim.step? automaton.toGraph c).bind fun stepped =>
        consume? automaton stepped (events.push (.stepped c stepped.current.size)) rest

def run? (automaton : Automaton) (sim : Simulator) (text : List Char) :
    Option (Verdict × Simulator) :=
  (sim.begin? automaton).bind fun sim => consume? automaton sim #[] text

end RegularPattern.Simulator
