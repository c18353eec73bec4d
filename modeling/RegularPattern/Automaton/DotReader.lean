import RegularPattern.Automaton.Dot
import RegularPattern.Text.Lines
import RegularPattern.Text.Unescape

/-!
# Reading Graphviz text back

The lines of the text say which states there are, in their order, and which edges leave each of
them. Labels are the only place where a character of the pattern is written, so a line is read from
its front, one part after the other. The edges of a state stand behind its own line.

## Main definitions

* `DotLine`, `DotLine.read?` — what a line says.
* `DotLine.gather` — the states that lines describe.
* `Automaton.ofDot?` — graph, entry and exit of a text.
-/

namespace RegularPattern

/-- What a node is to the automaton. -/
inductive NodeRole where
  | entry
  | exit
  | inner
  deriving DecidableEq

namespace NodeRole

/-- How a node of this role is drawn. -/
def style : NodeRole → String
  | entry => "[fillcolor=green]"
  | exit => "[shape=doublecircle]"
  | inner => "[fillcolor=\"#EEEEEE\" fontcolor=\"#888888\"]"

def ofStyle? (style : List Char) : Option NodeRole :=
  [entry, exit, inner].find? fun role => role.style.toList = style

theorem ofStyle?_style (role : NodeRole) : ofStyle? role.style.toList = some role := by
  cases role <;> decide

end NodeRole

/-- What a line of the text says. -/
inductive DotLine where
  | node (id : StateId) (role : NodeRole)
  | edge (edge : Edge)
  deriving DecidableEq

namespace DotLine

/-- The state that the line calls the entry. -/
def start? : DotLine → Option StateId
  | node id .entry => some id
  | _ => none

/-- The state that the line calls the exit. -/
def out? : DotLine → Option StateId
  | node id .exit => some id
  | _ => none

/-! ## Reading -/

/-- The name of a node at the front of a text, and what follows it. -/
def readName? (text : List Char) : Option (StateId × List Char) :=
  ("node_".toList.isPrefixOf? text).map (Text.readNumber 10 0)

/-- What follows the arrow of an edge from the given state. -/
def readEdge? (id : StateId) (text : List Char) : Option DotLine := do
  let (target, rest) ← readName? text
  if rest = "[style=dashed]".toList then
    some (edge (.epsilon id target))
  else
    let label ← "[label=\"".toList.isPrefixOf? rest
    let (c, rest) ← Text.unescape? label
    if rest = "\"]".toList then some (edge (.consuming id c target)) else none

/-- What follows the name in the line of a state. -/
def readNode? (id : StateId) (text : List Char) : Option DotLine := do
  let label ← "[label=\"".toList.isPrefixOf? text
  let style ← "\"]".toList.isPrefixOf? (Text.readNumber 10 0 label).2
  (NodeRole.ofStyle? style).map (node id)

/-- A whole line, without its end. -/
def read? (text : List Char) : Option DotLine := do
  let (id, rest) ← readName? text
  match " -> ".toList.isPrefixOf? rest with
  | some rest => readEdge? id rest
  | none => readNode? id rest

/-- The states that lines describe, and the edges that stand before the first of them. -/
def gather : List DotLine → List Edge × List State
  | [] => ([], [])
  | node _ _ :: lines =>
    let below := gather lines
    ([], .ofEdges below.1 :: below.2)
  | edge leaving :: lines =>
    let below := gather lines
    (leaving :: below.1, below.2)

end DotLine

/-- Graph, entry and exit of an automaton whose text is given. -/
def Automaton.ofDot? (text : String) : Option (Graph × Fragment) := do
  let body ← dotHead.toList.isPrefixOf? text.toList
  let lines ← (Text.cut '\n' body).dropLast.mapM DotLine.read?
  let start ← lines.findSome? DotLine.start?
  let out ← lines.findSome? DotLine.out?
  some (⟨(DotLine.gather lines).2.toArray⟩, ⟨start, out⟩)

end RegularPattern
