import RegularPattern.Automaton.DotReader
import RegularPattern.Proofs.Automaton.Shape
import RegularPattern.Proofs.Pattern.Composition
import RegularPattern.Proofs.Text.Lines

/-!
# Graphviz text can be read back

The text of a compiled pattern says everything about its graph: states, edges in their order, entry
and exit. Line by line, what is written is read back, whatever characters are taken for visible; no
line holds a line feed of its own; and in a compiled pattern the edges of each state give the state
again when they are added one by one.

## Main definitions

* `DotLine.chars` — the characters of a line.
* `Automaton.drawn` — what the lines of a state say.
-/

namespace RegularPattern

theorem isPrefixOf?_append (front rest : List Char) :
    front.isPrefixOf? (front ++ rest) = some rest :=
  List.isPrefixOf?_eq_some_iff_append_eq.mpr rfl

/-- If every answer is the same and one is given, it is the first. -/
theorem findSome?_eq_some_of_mem {α β : Type} {f : α → Option β} {l : List α} {a : α} {b : β}
    (mem : a ∈ l) (here : f a = some b) (only : ∀ x ∈ l, ∀ y, f x = some y → y = b) :
    l.findSome? f = some b := by
  cases found : l.findSome? f with
  | none =>
    rw [List.findSome?_eq_none_iff.mp found a mem] at here
    cases here
  | some y =>
    obtain ⟨x, inList, same⟩ := List.exists_of_findSome?_eq_some found
    rw [only x inList y same]

namespace DotLine

/-! ## Lines -/

/-- The name of a node. -/
def name (id : StateId) : List Char :=
  "node_".toList ++ Nat.toDigits 10 id

/-- The characters of a line, without its end. -/
def chars (visible : Char → Bool) : DotLine → List Char
  | node id role =>
    name id ++ ("[label=\"".toList ++ (Nat.toDigits 10 id ++ ("\"]".toList ++ role.style.toList)))
  | edge (.epsilon id target) =>
    name id ++ (" -> ".toList ++ (name target ++ "[style=dashed]".toList))
  | edge (.consuming id c target) =>
    name id ++ (" -> ".toList ++ (name target ++ ("[label=\"".toList
      ++ (Text.escape visible .both c ++ "\"]".toList))))

theorem readName?_name (id : StateId) {rest : List Char}
    (stops : rest.head?.map (Text.digit? 10) = some none) :
    readName? (name id ++ rest) = some (id, rest) := by
  cases rest with
  | nil => cases stops
  | cons c rest =>
    have noDigit : Text.digit? 10 c = none := by simpa using stops
    rw [readName?, name, List.append_assoc, isPrefixOf?_append, Option.map_some,
      Text.readNumber_toDigits (by decide) (by decide) id noDigit]

theorem readEdge?_epsilon (id target : StateId) :
    readEdge? id (name target ++ "[style=dashed]".toList) =
      some (edge (.epsilon id target)) := by
  rw [readEdge?, readName?_name target rfl]
  rfl

theorem readEdge?_consuming (visible : Char → Bool) (id : StateId) (c : Char) (target : StateId) :
    readEdge? id (name target ++ ("[label=\"".toList
      ++ (Text.escape visible .both c ++ "\"]".toList))) =
      some (edge (.consuming id c target)) := by
  have solid : "[label=\"".toList ++ (Text.escape visible .both c ++ "\"]".toList) ≠
      "[style=dashed]".toList := fun same => by cases same
  rw [readEdge?, readName?_name target rfl]
  simp only [Option.bind_eq_bind, Option.bind_some, if_neg solid, isPrefixOf?_append,
    Text.unescape?_escape, if_true]

theorem readNode?_label (id : StateId) (role : NodeRole) :
    readNode? id ("[label=\"".toList
      ++ (Nat.toDigits 10 id ++ ("\"]".toList ++ role.style.toList))) =
      some (node id role) := by
  have number : Text.readNumber 10 0 (Nat.toDigits 10 id ++ ("\"]".toList ++ role.style.toList)) =
      (id, "\"]".toList ++ role.style.toList) :=
    Text.readNumber_toDigits (by decide) (by decide) id (by decide) _
  simp only [readNode?, Option.bind_eq_bind, isPrefixOf?_append, Option.bind_some, number,
    NodeRole.ofStyle?_style, Option.map_some]

/-- A line is read back. -/
theorem read?_chars (visible : Char → Bool) (line : DotLine) :
    read? (line.chars visible) = some line := by
  cases line with
  | node id role =>
    rw [chars, read?, readName?_name id rfl]
    exact readNode?_label id role
  | edge e =>
    cases e with
    | epsilon id target =>
      rw [chars, read?, readName?_name id rfl]
      simp only [Option.bind_eq_bind, Option.bind_some, isPrefixOf?_append, readEdge?_epsilon]
    | consuming id c target =>
      rw [chars, read?, readName?_name id rfl]
      simp only [Option.bind_eq_bind, Option.bind_some, isPrefixOf?_append, readEdge?_consuming]

theorem newline_not_mem_chars (visible : Char → Bool) (line : DotLine) :
    '\n' ∉ line.chars visible := by
  have digits (n : Nat) : '\n' ∉ Nat.toDigits 10 n :=
    Text.newline_not_mem_toDigits (by decide) (by decide) n
  have label := Text.newline_not_mem_escape visible .both
  cases line with
  | node id role => cases role <;> simp [chars, name, NodeRole.style, digits]
  | edge e => cases e <;> simp [chars, name, digits, label]

/-- Of the pieces between line ends, all but the last one are the lines. -/
theorem dropLast_cut (visible : Char → Bool) (lines : List DotLine) {rest : List Char}
    (free : '\n' ∉ rest) :
    (Text.cut '\n' ((lines.map (chars visible)).flatMap (· ++ ['\n']) ++ rest)).dropLast =
      lines.map (chars visible) := by
  have lineFree : ∀ text ∈ lines.map (chars visible), '\n' ∉ text := by
    simpa using fun line _ => newline_not_mem_chars visible line
  have last := Text.cut_append free []
  rw [List.append_nil, Text.cut, List.modifyHead_cons, List.append_nil] at last
  rw [Text.cut_flatMap_line lineFree, last, List.dropLast_concat]

theorem mapM_read?_chars (visible : Char → Bool) (lines : List DotLine) :
    (lines.map (chars visible)).mapM read? = some lines := by
  induction lines with
  | nil => rfl
  | cons line lines ih => simp [List.mapM_cons, read?_chars, ih]

/-! ## States -/

theorem start?_eq_some_iff {line : DotLine} {id : StateId} :
    line.start? = some id ↔ line = node id .entry := by
  cases line with
  | node k role => cases role <;> simp [start?]
  | edge => simp [start?]

theorem out?_eq_some_iff {line : DotLine} {id : StateId} :
    line.out? = some id ↔ line = node id .exit := by
  cases line with
  | node k role => cases role <;> simp [out?]
  | edge => simp [out?]

theorem gather_edges (edges : List Edge) (lines : List DotLine) :
    gather (edges.map edge ++ lines) = (edges ++ (gather lines).1, (gather lines).2) := by
  induction edges with
  | nil => rfl
  | cons e edges ih => rw [List.map_cons, List.cons_append, gather, ih, List.cons_append]

end DotLine

/-- The edges that leave a state of the given number, in their order. -/
def State.edges (id : StateId) (state : State) : List Edge :=
  state.epsilons.map (.epsilon id)
    ++ state.transitions.flatMap fun entry => entry.2.map (.consuming id entry.1)

/-- A state that branches consists of its edges. -/
theorem State.Branching.ofEdges_edges {state : State} (branching : state.Branching)
    (id : StateId) : ofEdges (state.edges id) = state := by
  obtain ⟨epsilons, transitions, ascending⟩ := state
  rcases branching with ⟨rfl, c, target, rfl⟩ | ⟨rfl, ⟨target, rfl⟩ | ⟨first, second, ne, rfl⟩⟩
  · rfl
  · rfl
  · simp [ofEdges, edges, addEdge, addEpsilon, appendNew, ne.symm]

namespace Automaton

variable {automaton : Automaton}

/-- What a node is to the automaton. -/
def role (automaton : Automaton) (id : StateId) : NodeRole :=
  if id = automaton.start then .entry else if id = automaton.out then .exit else .inner

theorem role_eq_entry_iff {id : StateId} : automaton.role id = .entry ↔ id = automaton.start := by
  grind [role]

theorem eq_out_of_role_eq_exit {id : StateId} (exit : automaton.role id = .exit) :
    id = automaton.out := by
  grind [role]

/-- What the lines of a state say. -/
def drawn (automaton : Automaton) (id : StateId) (state : State) : List DotLine :=
  .node id (automaton.role id) :: (state.edges id).map .edge

/-- What all lines say. -/
def drawing (automaton : Automaton) : List DotLine :=
  automaton.states.toList.zipIdx.flatMap fun entry => automaton.drawn entry.2 entry.1

theorem toList_nodeName (id : StateId) : (nodeName id).toList = DotLine.name id := by
  rw [nodeName, String.toList_append, Nat.toString_eq_repr, Nat.toList_repr, DotLine.name]

theorem nodeStyle_eq (automaton : Automaton) (id : StateId) :
    automaton.nodeStyle id = (automaton.role id).style := by
  unfold nodeStyle role
  split
  · rfl
  · split <;> rfl

theorem toList_nodeLine (visible : Char → Bool) (automaton : Automaton) (id : StateId) :
    (automaton.nodeLine id).toList =
      (DotLine.node id (automaton.role id)).chars visible ++ ['\n'] := by
  simp [nodeLine, toList_nodeName, nodeStyle_eq, DotLine.chars, Nat.toString_eq_repr,
    Nat.toList_repr]

theorem toList_epsilonLine (visible : Char → Bool) (id target : StateId) :
    (epsilonLine id target).toList =
      (DotLine.edge (.epsilon id target)).chars visible ++ ['\n'] := by
  simp [epsilonLine, toList_nodeName, DotLine.chars]

theorem toList_transitionLine (visible : Char → Bool) (id : StateId) (c : Char)
    (target : StateId) : (transitionLine visible id c target).toList =
      (DotLine.edge (.consuming id c target)).chars visible ++ ['\n'] := by
  simp [transitionLine, toList_nodeName, DotLine.chars]

theorem flatMap_stateLines (visible : Char → Bool) (automaton : Automaton) (id : StateId)
    (state : State) : (stateLines visible automaton id state).flatMap String.toList =
      ((automaton.drawn id state).map (DotLine.chars visible)).flatMap (· ++ ['\n']) := by
  simp [stateLines, drawn, State.edges, List.flatMap_map, List.map_flatMap, List.flatMap_assoc,
    toList_nodeLine visible, toList_epsilonLine visible, toList_transitionLine]

/-- The text is its head, the lines one after the other and two braces. -/
theorem toList_dotWith (visible : Char → Bool) (automaton : Automaton) :
    (automaton.dotWith visible).toList = dotHead.toList
      ++ ((automaton.drawing.map (DotLine.chars visible)).flatMap (· ++ ['\n']) ++ ['}', '}']) := by
  simp [dotWith, drawing, String.toList_join, List.flatMap_assoc, List.map_flatMap,
    flatMap_stateLines]

/-! ## What a text says -/

theorem node_mem_drawing_iff {id : StateId} {role : NodeRole} :
    .node id role ∈ automaton.drawing ↔ id < automaton.size ∧ role = automaton.role id := by
  simp only [drawing, drawn, List.mem_flatMap, List.mem_cons, DotLine.node.injEq, List.mem_map,
    reduceCtorEq, and_false, exists_false, or_false, Prod.exists, List.mem_zipIdx_iff_getElem?]
  constructor
  · rintro ⟨state, id', known, rfl, rfl⟩
    exact ⟨(List.getElem?_eq_some_iff.mp known).1, rfl⟩
  · rintro ⟨lt, rfl⟩
    have known : id < automaton.states.toList.length := by simpa [Graph.size] using lt
    exact ⟨_, id, List.getElem?_eq_getElem known, rfl, rfl⟩

theorem gather_drawn (automaton : Automaton) {states : List State}
    (whole : ∀ state ∈ states, ∀ id, State.ofEdges (state.edges id) = state) (k : Nat) :
    DotLine.gather ((states.zipIdx k).flatMap fun entry => automaton.drawn entry.2 entry.1) =
      ([], states) := by
  induction states generalizing k with
  | nil => rfl
  | cons state states ih =>
    obtain ⟨here, others⟩ := List.forall_mem_cons.mp whole
    rw [List.zipIdx_cons, List.flatMap_cons, drawn, List.cons_append, DotLine.gather,
      DotLine.gather_edges, ih others, List.append_nil, here]

theorem findSome?_start? (lt : automaton.start < automaton.size) :
    automaton.drawing.findSome? DotLine.start? = some automaton.start := by
  have entry : automaton.role automaton.start = .entry := if_pos rfl
  refine findSome?_eq_some_of_mem (node_mem_drawing_iff.mpr ⟨lt, entry.symm⟩) rfl ?_
  intro line mem id found
  obtain rfl := DotLine.start?_eq_some_iff.mp found
  exact role_eq_entry_iff.mp (node_mem_drawing_iff.mp mem).2.symm

theorem findSome?_out? (lt : automaton.out < automaton.size)
    (ne : automaton.start ≠ automaton.out) :
    automaton.drawing.findSome? DotLine.out? = some automaton.out := by
  have exit : automaton.role automaton.out = .exit := by simp [role, ne.symm]
  refine findSome?_eq_some_of_mem (node_mem_drawing_iff.mpr ⟨lt, exit.symm⟩) rfl ?_
  intro line mem id found
  obtain rfl := DotLine.out?_eq_some_iff.mp found
  exact eq_out_of_role_eq_exit (node_mem_drawing_iff.mp mem).2.symm

/-- Every state is what its edges make when they are added one by one. -/
theorem NormalForm.ofEdges_edges (normalForm : automaton.NormalForm) :
    ∀ state ∈ automaton.states.toList, ∀ id, State.ofEdges (state.edges id) = state := by
  intro state mem id
  obtain ⟨k, lt, rfl⟩ := Array.mem_iff_getElem.mp (Array.mem_toList_iff.mp mem)
  have known : automaton.state k = automaton.states[k] := by simp [Graph.state, lt]
  rw [← known]
  by_cases out : k = automaton.out
  · rw [out, normalForm.blank_out]
    rfl
  · exact (normalForm.branching k lt out).ofEdges_edges id

/-- The text of an automaton in normal form gives back its graph, entry and exit. -/
theorem NormalForm.ofDot?_dotWith (normalForm : automaton.NormalForm) (visible : Char → Bool) :
    ofDot? (automaton.dotWith visible) = some (automaton.toGraph, automaton.toFragment) := by
  have start := findSome?_start? normalForm.start_lt
  have out := findSome?_out? normalForm.out_lt normalForm.start_ne_out
  have states := automaton.gather_drawn normalForm.ofEdges_edges 0
  have lines :=
    DotLine.dropLast_cut visible automaton.drawing (by decide : '\n' ∉ ['}', '}'])
  simp only [ofDot?, toList_dotWith, isPrefixOf?_append, Option.bind_eq_bind, Option.bind_some,
    lines, DotLine.mapM_read?_chars, start, out]
  rw [drawing, states]

end Automaton

/-- One decoder gives graph, entry and exit back from the text of any compiled pattern, whatever
characters its labels show as they are. Two compiled patterns with the same text therefore have the
same states in the same order, each with the same edges in the same order, the same entry and the
same exit. -/
theorem dotWith_determines_graph {p q : String} {flags flags' : Flags} {A B : Automaton}
    (compiledA : compile p flags = .ok A) (compiledB : compile q flags' = .ok B)
    (visible visible' : Char → Bool) :
    Automaton.ofDot? (A.dotWith visible) = some (A.toGraph, A.toFragment) ∧
      (A.dotWith visible = B.dotWith visible' →
        A.toGraph = B.toGraph ∧ A.toFragment = B.toFragment) := by
  obtain ⟨tree, -, rfl⟩ := exists_derives_of_compile compiledA
  obtain ⟨other, -, rfl⟩ := exists_derives_of_compile compiledB
  have readA := (tree.normalForm_automaton p flags).ofDot?_dotWith visible
  have readB := (other.normalForm_automaton q flags').ofDot?_dotWith visible'
  refine ⟨readA, fun same => ?_⟩
  rw [same, readB] at readA
  obtain ⟨graph, fragment⟩ := Prod.mk.inj (Option.some.inj readA)
  exact ⟨graph.symm, fragment.symm⟩

/-- A quotation mark and a line feed as labels; a group has the text of what it encloses. -/
theorem dotWith_determines_graph_of_quotes :
    ∃ A B, compile "\"|\n" .none = .ok A ∧ compile "(\"|\n)" .none = .ok B ∧
      A.dot = B.dot ∧ Automaton.ofDot? A.dot = some (A.toGraph, A.toFragment) ∧
      A.toGraph = B.toGraph ∧ A.toFragment = B.toFragment := by
  let quote : Tree .term := Tree.nothing.append (.bare (.plain '"'))
  let feed : Tree .term := Tree.nothing.append (.bare (.plain '\n'))
  have derives : ((Tree.single quote).bar feed).Derives "\"|\n".toList :=
    ⟨by simp [quote, feed, Tree.Valid, Tree.endsBare], rfl⟩
  have compiledA : compile "\"|\n" .none = .ok _ := compile_of_derives derives
  have compiledB : compile "(\"|\n)" .none = .ok _ := compile_of_derives derives.enclosed
  obtain ⟨read, determined⟩ :=
    dotWith_determines_graph compiledA compiledB Text.isVisible Text.isVisible
  exact ⟨_, _, compiledA, compiledB, rfl, read, determined rfl⟩

end RegularPattern
