import RegularPattern.Simulator.Strict
import RegularPattern.Proofs.Simulator.Frontier

/-!
# Closing a state

While a state is closed, the stack may hold a state several times, and also after the state was put
on the list; that a state is on the list is only noticed when it is popped. All the same the list
grows by the order of one recursive depth-first search, and the number of rounds is known: one for
the state itself and one for each epsilon edge of a state that was visited.

## Main definitions

* `Graph.fanOut` — how many epsilon edges leave some states.
-/

namespace RegularPattern

/-- The number of epsilon edges that leave the states of a list. -/
def Graph.fanOut (graph : Graph) (order : List StateId) : Nat :=
  Simulator.total (fun id => (graph.epsilons id).length) order

theorem Graph.fanOut_visit (graph : Graph) (id : StateId) (below after rest : List StateId) :
    (id :: rest).length + graph.fanOut (id :: below ++ after) =
      (graph.epsilons id ++ rest).length + graph.fanOut (below ++ after) + 1 := by
  simp only [fanOut, List.cons_append, Simulator.total, List.length_cons, List.length_append]
  omega

namespace Simulator

variable {graph : Graph} {sim : Simulator} {seen order : List StateId}

/-! ## Rounds -/

section

variable {id : StateId} {rest : List StateId} (stacked : sim.stack = id :: rest)
  (known : id < sim.stamps.size ∧ id < graph.size) (n : Nat)

include stacked known

theorem rounds?_succ_of_listed (on : sim.onList id = true) :
    sim.rounds? graph (n + 1) = (sim.withStack rest).rounds? graph n := by
  simp [rounds?, round?, stacked, known, on]

theorem rounds?_succ_of_fresh (fresh : sim.onList id = false) :
    sim.rounds? graph (n + 1) = ((sim.withStack rest).visit graph id).rounds? graph n := by
  simp [rounds?, round?, stacked, known, fresh]

end

/-- Draining takes one round for each state on the stack and one for each that is put there. -/
theorem rounds?_eq_drain (stay : graph.EpsilonsStay) (sim : Simulator)
    (searching : Searching graph seen sim) (search : graph.DepthFirst sim.stack seen order) :
    sim.rounds? graph (sim.stack.length + graph.fanOut order) = some (sim.drain graph) := by
  induction sim using drain.induct graph generalizing seen order with
  | case1 sim empty =>
    rw [empty] at search ⊢
    cases search
    rw [drain_nil empty]
    rfl
  | case2 sim id rest stacked _ fresh _ ih =>
    rw [stacked] at search ⊢
    have new : sim.onList id = false := fresh.2
    cases search with
    | skip old => exact absurd (new.symm.trans ((searching.mem_seen_iff id).mp old)) Bool.false_ne_true
    | @visit _ _ _ below after _ deeper later =>
      have whole : graph.DepthFirst (graph.epsilons id ++ rest) (id :: seen) (below ++ after) :=
        deeper.append later
      have known := searching.head_lt stacked
      rw [graph.fanOut_visit, rounds?_succ_of_fresh stacked known _ new, drain_cons stacked,
        if_pos (by exact fresh)]
      exact ih (searching.visit stay stacked) whole
  | case3 sim id rest stacked _ passed ih =>
    rw [stacked] at search ⊢
    have known := searching.head_lt stacked
    have on : sim.onList id = true := Bool.of_not_eq_false fun fresh => passed ⟨known.1, fresh⟩
    cases search with
    | skip old later =>
      rw [List.length_cons, Nat.succ_add_eq_add_succ, Nat.add_succ,
        rounds?_succ_of_listed stacked known _ on, drain_cons stacked, if_neg (by exact passed)]
      exact ih (searching.pass stacked) later
    | visit new => exact absurd ((searching.mem_seen_iff id).mpr on) new

/-! ## The search -/

/-- Closing a state puts on the list the states that a depth-first search visits from it, in their
order and past those that are on the list already. It takes one round for the state and one for
each epsilon edge that leaves a visited state, leaves nothing on the stack, and stamps exactly the
visited states. If epsilon edges did not lead out of the list before, then the list has grown by
all that is reached. -/
theorem closure_eq_search (stay : graph.EpsilonsStay) (sim : Simulator)
    (size_le : graph.size ≤ sim.stamps.size) (empty : sim.stack = []) {root : StateId}
    (lt : root < graph.size) :
    let after := sim.closure graph root
    ∃ order,
      (∀ other, graph.DepthFirst [root] sim.listed other ↔ other = order) ∧
      (sim.withStack [root]).rounds? graph (1 + graph.fanOut order) = some after ∧
      after.stack = [] ∧
      after.next.toList = sim.next.toList ++ order ∧
      (∀ id, after.stamps[id]? = if id ∈ order then some sim.stamp else sim.stamps[id]?) ∧
      after.current = sim.current ∧ after.stamp = sim.stamp ∧
      ((∀ s, sim.onList s = true → ∀ t ∈ graph.epsilons s, sim.onList t = true) →
        ∀ id, after.onList id = true ↔ sim.onList id = true ∨ graph.Reaches root id) := by
  intro after
  have marks (id : StateId) : id ∈ sim.listed ↔ sim.onList id = true := mem_listed_iff
  obtain ⟨order, search, closed⟩ := closure_eq_enlist stay empty size_le marks lt
  have inRange : ∀ id ∈ order, id < sim.stamps.size := fun id mem =>
    Nat.lt_of_lt_of_le (stay.lt_of_search search (by simpa using lt) id mem) size_le
  have rounds := rounds?_eq_drain stay (sim.withStack [root]) (searching_closure size_le marks lt)
    search
  have after_eq : after = sim.enlist order := closed
  refine ⟨order, ?unique, ?rounds, ?stack, ?next, ?stamps, ?current, ?stamp, ?reached⟩
  case unique =>
    intro other
    constructor
    · exact fun found => found.unique search
    · rintro rfl
      exact search
  case rounds =>
    have drained : after = (sim.withStack [root]).drain graph := by rw [← empty]; rfl
    rw [drained]
    exact rounds
  case stack => rw [after_eq, stack_enlist, empty]
  case next => rw [after_eq, toList_next_enlist]
  case stamps =>
    rw [after_eq]
    exact getElem?_stamps_enlist inRange
  case current => rw [after_eq, current_enlist]
  case stamp => rw [after_eq, stamp_enlist]
  case reached =>
    intro unleft id
    have grown : id ∈ sim.listed ∨ id ∈ order ↔
        id ∈ sim.listed ∨ ∃ begun ∈ [root], graph.Reaches begun id :=
      search.mem_seen_or_order_iff (by simpa only [marks] using unleft)
    rw [after_eq, onList_enlist inRange, or_comm, ← marks, grown]
    simp

/-- Three states that epsilon edges join both ways, and a fourth one that leads to itself alone. The
edge on a character leads out of the graph. -/
def crossing : Graph :=
  Graph.store.addEdges
    [.epsilon 0 1, .epsilon 0 3, .epsilon 1 2, .epsilon 1 0, .epsilon 2 0, .epsilon 2 1,
      .epsilon 3 3, .consuming 2 'a' 7]
    ({} : Graph).addState.addState.addState.addState

/-- The last state is on the newest list already, and the others were on lists before it. -/
def interrupted : Simulator where
  current := #[2]
  next := #[3]
  stack := []
  stamps := #[3, 0, 2, 4]
  stamp := 4

theorem search_crossing : crossing.DepthFirst [0] [3] [0, 1, 2] := by
  have last : crossing.DepthFirst [2, 0] [1, 0, 3] (2 :: [] ++ []) :=
    .visit (by decide) (.skip (by decide) (.skip (by decide) (.done _)))
      (.skip (by decide) (.done _))
  have others : crossing.DepthFirst [1, 3] [0, 3] (1 :: [2] ++ []) :=
    .visit (by decide) last (.skip (by decide) (.done _))
  have whole : crossing.DepthFirst [0] [3] (0 :: [1, 2] ++ []) :=
    .visit (by decide) others (.done _)
  exact whole

theorem closure_eq_search_of_crossing :
    crossing.EpsilonsStay ∧ crossing.size ≤ interrupted.stamps.size ∧ interrupted.stack = [] ∧
      0 < crossing.size ∧
      let after := interrupted.closure crossing 0
      (interrupted.withStack [0]).rounds? crossing 7 = some after ∧
        after.next.toList = [3, 0, 1, 2] ∧
        ∀ id, after.onList id = true ↔ interrupted.onList id = true ∨ crossing.Reaches 0 id := by
  refine ⟨by decide, by decide, rfl, by decide, ?_⟩
  have marked : interrupted.listed = [3] := by decide
  obtain ⟨order, unique, rounds, -, next, -, -, -, reached⟩ :=
    closure_eq_search (by decide) interrupted (by decide : crossing.size ≤ _) rfl
      (by decide : 0 < crossing.size)
  obtain rfl := (unique [0, 1, 2]).mp (marked ▸ search_crossing)
  refine ⟨rounds, next, reached ?_⟩
  intro s on t edge
  obtain rfl : s = 3 := by simpa [marked] using mem_listed_iff.mpr on
  obtain rfl : t = 3 := by simpa [show crossing.epsilons 3 = [3] by decide] using edge
  exact on

end Simulator

end RegularPattern
