import RegularPattern.Automaton.Basic
import RegularPattern.Text.Escape
import RegularPattern.Text.Visible

/-!
# Automata as Graphviz text

Each state gives one line for itself, one for each of its epsilon edges and one for each of its
consuming edges, by number and then in the order of the edges.

## Main definitions

* `Automaton.dotWith` — the text, for any choice of the visible characters in labels.
* `Automaton.dot` — the text.
-/

namespace RegularPattern.Automaton

def nodeName (id : StateId) : String :=
  "node_" ++ toString id

/-- How a node is drawn: the entry, the exit, any other. -/
def nodeStyle (automaton : Automaton) (id : StateId) : String :=
  if id = automaton.start then
    "[fillcolor=green]"
  else if id = automaton.out then
    "[shape=doublecircle]"
  else
    "[fillcolor=\"#EEEEEE\" fontcolor=\"#888888\"]"

def nodeLine (automaton : Automaton) (id : StateId) : String :=
  nodeName id ++ "[label=\"" ++ toString id ++ "\"]" ++ automaton.nodeStyle id ++ "\n"

def epsilonLine (id target : StateId) : String :=
  nodeName id ++ " -> " ++ nodeName target ++ "[style=dashed]\n"

def transitionLine (visible : Char → Bool) (id : StateId) (c : Char) (target : StateId) : String :=
  nodeName id ++ " -> " ++ nodeName target ++ "[label=\""
    ++ String.ofList (Text.escape visible .both c) ++ "\"]\n"

/-- The lines of one state. -/
def stateLines (visible : Char → Bool) (automaton : Automaton) (id : StateId) (state : State) :
    List String :=
  automaton.nodeLine id :: state.epsilons.map (epsilonLine id)
    ++ state.transitions.flatMap fun entry => entry.2.map (transitionLine visible id entry.1)

/-- What stands before the lines of the states. -/
def dotHead : String :=
  "digraph G \x7b  rankdir=\"LR\" graph [fontname = \"Courier New\"];\n"
    ++ "                node [fontname = \"verdana\", style = rounded];\n"
    ++ "                edge [fontname = \"verdana\"];\n"
    ++ "                \x7b\n"
    ++ "node [shape=circle style=filled fillcolor=\"#4385f5\" fontcolor=\"#FFFFFF\" "
    ++ "color=white penwidth=5.0 margin=0.1 width=0.5 height=0.5 fixedsize=true]\n"

/-- The whole text, without a final line end. -/
def dotWith (visible : Char → Bool) (automaton : Automaton) : String :=
  dotHead
    ++ String.join (automaton.states.toList.zipIdx.flatMap fun entry =>
        stateLines visible automaton entry.2 entry.1)
    ++ "\x7d\x7d"

/-- The whole text; in labels, hidden characters are written by number. -/
def dot (automaton : Automaton) : String :=
  automaton.dotWith Text.isVisible

end RegularPattern.Automaton
