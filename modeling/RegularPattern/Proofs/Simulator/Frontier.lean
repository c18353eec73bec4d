import RegularPattern.Simulator.Basic
import RegularPattern.Proofs.Graph.Search

/-!
# The lists of a simulator

Draining the stack of a simulator lists the order of one depth-first search that passes over what
is on the newest list already. Between two lists the stack is empty and no state remembers a stamp
that is still to come, so a new list begins with nothing seen, whatever lists were made before.

## Main definitions

* `Simulator.enlist`, `Simulator.listed` — puts states on the newest list, and the states on it.
* `Simulator.Searching` — the memory while the stack is drained.
* `Simulator.Settled` — the memory between two lists.
* `Simulator.Frontier` — the memory right after the list of a search.
-/

namespace RegularPattern.Simulator

/-! ## Listing states -/

/-- Puts a state on the newest list. -/
def put (sim : Simulator) (id : StateId) : Simulator :=
  { sim with next := sim.next.push id, stamps := sim.stamps.setIfInBounds id sim.stamp }

/-- Puts states on the newest list, in their order. -/
def enlist (sim : Simulator) (order : List StateId) : Simulator :=
  { sim with
    next := sim.next ++ order
    stamps := order.foldl (fun stamps id => stamps.setIfInBounds id sim.stamp) sim.stamps }

variable {graph : Graph} {sim : Simulator} {order seen roots : List StateId}

@[simp] theorem current_enlist (sim : Simulator) (order : List StateId) :
    (sim.enlist order).current = sim.current := rfl

@[simp] theorem stack_enlist (sim : Simulator) (order : List StateId) :
    (sim.enlist order).stack = sim.stack := rfl

@[simp] theorem stamp_enlist (sim : Simulator) (order : List StateId) :
    (sim.enlist order).stamp = sim.stamp := rfl

@[simp] theorem toList_next_enlist (sim : Simulator) (order : List StateId) :
    (sim.enlist order).next.toList = sim.next.toList ++ order := by
  simp [enlist]

@[simp] theorem enlist_nil (sim : Simulator) : sim.enlist [] = sim := by
  simp [enlist]

theorem enlist_cons (sim : Simulator) (id : StateId) (order : List StateId) :
    sim.enlist (id :: order) = (sim.put id).enlist order := by
  simp [enlist, put]

theorem enlist_append (sim : Simulator) (order later : List StateId) :
    sim.enlist (order ++ later) = (sim.enlist order).enlist later := by
  have next : sim.next ++ (order ++ later) = sim.next ++ order ++ later :=
    Array.ext' (by simp)
  simp [enlist, next]

@[simp] theorem size_stamps_enlist (sim : Simulator) (order : List StateId) :
    (sim.enlist order).stamps.size = sim.stamps.size := by
  induction order generalizing sim with
  | nil => rfl
  | cons id order ih => rw [enlist_cons, ih (sim.put id)]; simp [put]

theorem onList_put {id : StateId} (lt : id < sim.stamps.size) (other : StateId) :
    (sim.put id).onList other = true ↔ other = id ∨ sim.onList other = true := by
  have same : (sim.put id).onList other = (sim.visit {} id).onList other := rfl
  rw [same, onList_visit]
  simp [lt, or_comm]

theorem getElem?_stamps_enlist (inRange : ∀ id ∈ order, id < sim.stamps.size) (id : StateId) :
    (sim.enlist order).stamps[id]? = if id ∈ order then some sim.stamp else sim.stamps[id]? := by
  induction order generalizing sim with
  | nil => simp
  | cons first order ih =>
    obtain ⟨lt, others⟩ := List.forall_mem_cons.mp inRange
    have others' : ∀ id ∈ order, id < (sim.put first).stamps.size := by simpa [put] using others
    rw [enlist_cons, ih others']
    simp only [put, Array.getElem?_setIfInBounds, List.mem_cons]
    grind

theorem onList_enlist (inRange : ∀ id ∈ order, id < sim.stamps.size) (id : StateId) :
    (sim.enlist order).onList id = true ↔ id ∈ order ∨ sim.onList id = true := by
  rw [onList, getElem?_stamps_enlist inRange, stamp_enlist]
  split
  · next mem => simp [mem]
  · next absent => simp [absent, onList]

/-- The states that have the newest stamp. -/
def listed (sim : Simulator) : List StateId :=
  (List.range sim.stamps.size).filter sim.onList

theorem mem_listed_iff {id : StateId} : id ∈ sim.listed ↔ sim.onList id = true := by
  simp only [listed, List.mem_filter, List.mem_range, and_iff_right_iff_imp]
  intro on
  have found : sim.stamps[id]? = some sim.stamp := by simpa [onList] using on
  exact (Array.getElem?_eq_some_iff.mp found).1

theorem le_stamp_enlist (le : ∀ stamp ∈ sim.stamps, stamp ≤ sim.stamp) (order : List StateId) :
    ∀ stamp ∈ (sim.enlist order).stamps, stamp ≤ sim.stamp := by
  induction order generalizing sim with
  | nil => exact le
  | cons id order ih =>
    have le' : ∀ stamp ∈ (sim.put id).stamps, stamp ≤ sim.stamp := by
      intro stamp mem
      rcases Array.mem_or_eq_of_mem_setIfInBounds mem with mem | rfl
      · exact le stamp mem
      · exact Nat.le_refl _
    exact ih le'

/-! ## What draining leaves as it was -/

/-- Draining keeps what is kept by visiting a state and by popping the stack. -/
theorem drain_keeps {α : Type} (get : Simulator → α)
    (visit : ∀ sim id, get (visit graph sim id) = get sim)
    (withStack : ∀ sim stack, get (withStack sim stack) = get sim) (sim : Simulator) :
    get (sim.drain graph) = get sim := by
  induction sim using drain.induct graph with
  | case1 sim empty => rw [drain_nil empty]
  | case2 sim id rest stacked _ fresh _ ih =>
    rw [drain_cons stacked, if_pos (by exact fresh), ih, visit, withStack]
  | case3 sim id rest stacked _ listed ih =>
    rw [drain_cons stacked, if_neg (by exact listed), ih, withStack]

@[simp] theorem size_stamps_drain (graph : Graph) (sim : Simulator) :
    (sim.drain graph).stamps.size = sim.stamps.size :=
  drain_keeps (·.stamps.size) (fun _ _ => Array.size_setIfInBounds) (fun _ _ => rfl) sim

@[simp] theorem stack_drain (graph : Graph) (sim : Simulator) : (sim.drain graph).stack = [] := by
  induction sim using drain.induct graph with
  | case1 sim empty => rwa [drain_nil empty]
  | case2 sim id rest stacked _ fresh _ ih => rwa [drain_cons stacked, if_pos (by exact fresh)]
  | case3 sim id rest stacked _ listed ih => rwa [drain_cons stacked, if_neg (by exact listed)]

theorem foldl_closure_keeps {α : Type} (get : Simulator → α)
    (visit : ∀ sim id, get (visit graph sim id) = get sim)
    (withStack : ∀ sim stack, get (withStack sim stack) = get sim) (roots : List StateId)
    (sim : Simulator) : get (roots.foldl (closure graph) sim) = get sim := by
  induction roots generalizing sim with
  | nil => rfl
  | cons root roots ih =>
    rw [List.foldl_cons, ih, closure, drain_keeps get visit withStack, withStack]

@[simp] theorem current_foldl_closure (graph : Graph) (roots : List StateId) (sim : Simulator) :
    (roots.foldl (closure graph) sim).current = sim.current :=
  foldl_closure_keeps (·.current) (fun _ _ => rfl) (fun _ _ => rfl) roots sim

@[simp] theorem stamp_foldl_closure (graph : Graph) (roots : List StateId) (sim : Simulator) :
    (roots.foldl (closure graph) sim).stamp = sim.stamp :=
  foldl_closure_keeps (·.stamp) (fun _ _ => rfl) (fun _ _ => rfl) roots sim

/-! ## The stack as a search -/

theorem withStack_nil (empty : sim.stack = []) : sim.withStack [] = sim := by
  cases sim
  cases empty
  rfl

/-- While the stack is drained, every state has a stamp, the states `seen` are those on the newest
list, and the stack holds numbers of states only. -/
structure Searching (graph : Graph) (seen : List StateId) (sim : Simulator) : Prop where
  size_le : graph.size ≤ sim.stamps.size
  mem_seen_iff : ∀ id, id ∈ seen ↔ sim.onList id = true
  stack_lt : ∀ id ∈ sim.stack, id < graph.size

namespace Searching

variable {id : StateId} {rest : List StateId}

theorem head_lt (searching : Searching graph seen sim) (stacked : sim.stack = id :: rest) :
    id < sim.stamps.size ∧ id < graph.size := by
  have lt : id < graph.size := searching.stack_lt id (by simp [stacked])
  exact ⟨Nat.lt_of_lt_of_le lt searching.size_le, lt⟩

theorem pass (searching : Searching graph seen sim) (stacked : sim.stack = id :: rest) :
    Searching graph seen (sim.withStack rest) where
  size_le := searching.size_le
  mem_seen_iff := searching.mem_seen_iff
  stack_lt other mem := searching.stack_lt other (by simp [stacked, show other ∈ rest from mem])

theorem visit (searching : Searching graph seen sim) (stay : graph.EpsilonsStay)
    (stacked : sim.stack = id :: rest) :
    Searching graph (id :: seen) ((sim.withStack rest).visit graph id) where
  size_le := Nat.le_trans searching.size_le (Nat.le_of_eq Array.size_setIfInBounds.symm)
  mem_seen_iff other := by
    rw [List.mem_cons, searching.mem_seen_iff]
    exact (onList_put (searching.head_lt stacked).1 other).symm
  stack_lt other mem := by
    rcases List.mem_append.mp mem with mem | mem
    · exact stay id other mem
    · exact (searching.pass stacked).stack_lt other mem

end Searching

/-- Draining the stack lists one depth-first search from the states on the stack. -/
theorem drain_eq_enlist (stay : graph.EpsilonsStay) (sim : Simulator)
    (searching : Searching graph seen sim) :
    ∃ order, graph.DepthFirst sim.stack seen order ∧
      sim.drain graph = (sim.withStack []).enlist order := by
  induction sim using drain.induct graph generalizing seen with
  | case1 sim empty =>
    rw [drain_nil empty, withStack_nil empty, empty]
    exact ⟨[], .done seen, (enlist_nil sim).symm⟩
  | case2 sim id rest stacked _ fresh _ ih =>
    rw [stacked]
    have new : id ∉ seen := by
      rw [searching.mem_seen_iff id, Bool.not_eq_true]
      exact fresh.2
    -- What the state itself leads to is searched before the rest of the stack.
    obtain ⟨order, search, drained⟩ := ih (searching.visit stay stacked)
    obtain ⟨below, after, rfl, deeper, later⟩ := search.split
    refine ⟨id :: below ++ after, .visit new deeper later, ?_⟩
    rw [drain_cons stacked, if_pos (by exact fresh), drained, List.cons_append, enlist_cons]
    rfl
  | case3 sim id rest stacked _ listed ih =>
    rw [stacked]
    have lt := (searching.head_lt stacked).1
    have old : id ∈ seen := by
      rw [searching.mem_seen_iff id]
      exact Bool.of_not_eq_false fun fresh => listed ⟨lt, fresh⟩
    obtain ⟨order, search, drained⟩ := ih (searching.pass stacked)
    refine ⟨order, .skip old search, ?_⟩
    rw [drain_cons stacked, if_neg (by exact listed), drained]
    rfl

theorem searching_closure (size_le : graph.size ≤ sim.stamps.size)
    (marks : ∀ id, id ∈ seen ↔ sim.onList id = true) {id : StateId} (lt : id < graph.size) :
    Searching graph seen (sim.withStack [id]) where
  size_le := size_le
  mem_seen_iff := marks
  stack_lt := by simpa [withStack] using lt

theorem closure_eq_enlist (stay : graph.EpsilonsStay) (empty : sim.stack = [])
    (size_le : graph.size ≤ sim.stamps.size) (marks : ∀ id, id ∈ seen ↔ sim.onList id = true)
    {id : StateId} (lt : id < graph.size) :
    ∃ order, graph.DepthFirst [id] seen order ∧ sim.closure graph id = sim.enlist order := by
  obtain ⟨order, search, drained⟩ :=
    drain_eq_enlist stay (sim.withStack [id]) (searching_closure size_le marks lt)
  have cleared : (sim.withStack [id]).withStack [] = sim := withStack_nil empty
  rw [cleared] at drained
  refine ⟨order, search, ?_⟩
  rw [closure, empty, drained]

/-- Closing one state after the other lists one search from all of them. -/
theorem foldl_closure_eq_enlist (stay : graph.EpsilonsStay) (sim : Simulator)
    (empty : sim.stack = [])
    (size_le : graph.size ≤ sim.stamps.size) (marks : ∀ id, id ∈ seen ↔ sim.onList id = true)
    (inRange : ∀ id ∈ roots, id < graph.size) :
    ∃ order, graph.DepthFirst roots seen order ∧
      roots.foldl (closure graph) sim = sim.enlist order := by
  induction roots generalizing sim seen with
  | nil => exact ⟨[], .done seen, rfl⟩
  | cons root roots ih =>
    obtain ⟨lt, others⟩ := List.forall_mem_cons.mp inRange
    obtain ⟨order, search, closed⟩ := closure_eq_enlist stay empty size_le marks lt
    have listed : ∀ id ∈ order, id < sim.stamps.size := fun id mem =>
      Nat.lt_of_lt_of_le (stay.lt_of_search search (by simpa using lt) id mem) size_le
    have marks' (id : StateId) : id ∈ order ++ seen ↔ (sim.enlist order).onList id = true := by
      rw [onList_enlist listed, List.mem_append, marks]
    obtain ⟨later, search', closed'⟩ :=
      ih (sim.enlist order) (by simpa using empty) (by simpa using size_le) marks' others
    refine ⟨order ++ later, search.append search', ?_⟩
    rw [List.foldl_cons, closed, closed', enlist_append]

/-! ## Between two lists -/

/-- Between two lists the stack is empty, and no state remembers a stamp that is still to come
before counting begins anew. -/
structure Settled (graph : Graph) (sim : Simulator) : Prop where
  stack_eq : sim.stack = []
  size_eq : sim.stamps.size = graph.size
  le_stamp : ∀ stamp ∈ sim.stamps, stamp ≤ sim.stamp
  stamp_le : sim.stamp ≤ maxStamp

/-- The current list is that of a search with nothing seen, and the newest stamp marks it. -/
structure Frontier (graph : Graph) (roots : List StateId) (sim : Simulator) : Prop
    extends Settled graph sim where
  search : graph.DepthFirst roots [] sim.current.toList
  onList_iff : ∀ id, sim.onList id = true ↔ id ∈ sim.current

theorem settled_initial (graph : Graph) : Settled graph (initial graph) where
  stack_eq := rfl
  size_eq := Array.size_replicate
  le_stamp := by simp [initial]
  stamp_le := Nat.zero_le _

theorem Frontier.mem_current_iff (frontier : Frontier graph roots sim) {id : StateId} :
    id ∈ sim.current ↔ ∃ root ∈ roots, graph.Reaches root id := by
  rw [← Array.mem_toList_iff]
  exact frontier.search.mem_iff_reaches

/-- When a list is started, all stamps that states remember are below the new one. -/
theorem Settled.lt_stamp_newList (settled : Settled graph sim) :
    ∀ stamp ∈ sim.newList.stamps, stamp < sim.newList.stamp := by
  intro stamp mem
  rcases sim.newList_cases with ⟨counted, kept⟩ | ⟨anew, forgotten⟩
  · rw [kept] at mem
    rw [counted]
    exact Nat.lt_succ_of_le (settled.le_stamp stamp mem)
  · rw [forgotten] at mem
    obtain ⟨-, rfl⟩ := Array.mem_replicate.mp mem
    rw [anew]
    exact Nat.one_pos

theorem Settled.not_onList_newList (settled : Settled graph sim) (id : StateId) :
    sim.newList.onList id = false := by
  rw [← Bool.not_eq_true]
  intro listed
  have found : sim.newList.stamps[id]? = some sim.newList.stamp := by simpa [onList] using listed
  exact Nat.lt_irrefl _ (settled.lt_stamp_newList _ (Array.mem_of_getElem? found))

/-- A new list, whatever the lists before it were, is that of a search with nothing seen. -/
theorem Settled.exists_enlist (settled : Settled graph sim) (wellFormed : graph.WellFormed)
    (inRange : ∀ root ∈ roots, root < graph.size) :
    ∃ order, graph.DepthFirst roots [] order ∧ (∀ id ∈ order, id < sim.newList.stamps.size) ∧
      roots.foldl (closure graph) sim.newList = sim.newList.enlist order := by
  have unmarked (id : StateId) : id ∈ [] ↔ sim.newList.onList id = true := by
    simp [settled.not_onList_newList]
  have size : sim.newList.stamps.size = graph.size := (size_stamps_newList sim).trans settled.size_eq
  obtain ⟨order, search, closed⟩ := foldl_closure_eq_enlist wellFormed.epsilonsStay sim.newList
    settled.stack_eq (Nat.le_of_eq size.symm) unmarked inRange
  refine ⟨order, search, ?_, closed⟩
  rw [size]
  exact wellFormed.epsilonsStay.lt_of_search search inRange

theorem Settled.frontier (settled : Settled graph sim) (wellFormed : graph.WellFormed)
    (inRange : ∀ root ∈ roots, root < graph.size) :
    Frontier graph roots (roots.foldl (closure graph) sim.newList).swap := by
  obtain ⟨order, search, listed, closed⟩ := settled.exists_enlist wellFormed inRange
  have current : (sim.newList.enlist order).swap.current.toList = order := by
    simp [swap, newList]
  rw [closed]
  refine ⟨⟨?_, ?_, ?_, ?_⟩, ?_, ?_⟩
  · have stack : sim.newList.stack = [] := settled.stack_eq
    simpa [swap] using stack
  · simpa [swap] using settled.size_eq
  · have le : ∀ stamp ∈ sim.newList.stamps, stamp ≤ sim.newList.stamp :=
      fun stamp mem => Nat.le_of_lt (settled.lt_stamp_newList stamp mem)
    simpa [swap] using le_stamp_enlist le order
  · exact nextStamp_le sim.stamp
  · rwa [current]
  · intro id
    have marks := onList_enlist listed id
    rw [settled.not_onList_newList] at marks
    rw [← Array.mem_toList_iff, current]
    simpa [swap, onList] using marks

theorem step_eq_foldl_closure (graph : Graph) (sim : Simulator) (c : Char) :
    sim.step graph c = ((sim.current.toList.flatMap (graph.targets · c)).foldl (closure graph)
      sim.newList).swap := by
  rw [step, ← Array.foldl_toList, List.foldl_flatMap]

@[simp] theorem next_step (graph : Graph) (sim : Simulator) (c : Char) :
    (sim.step graph c).next = sim.current := by
  rw [step_eq_foldl_closure]
  exact current_foldl_closure graph _ sim.newList

@[simp] theorem stamp_step (graph : Graph) (sim : Simulator) (c : Char) :
    (sim.step graph c).stamp = nextStamp sim.stamp := by
  rw [step_eq_foldl_closure]
  exact stamp_foldl_closure graph _ sim.newList

/-- A step closes the targets of the live states. -/
theorem Settled.frontier_step (settled : Settled graph sim) (wellFormed : graph.WellFormed)
    (c : Char) :
    Frontier graph (sim.current.toList.flatMap (graph.targets · c)) (sim.step graph c) := by
  rw [step_eq_foldl_closure]
  apply settled.frontier wellFormed
  intro root mem
  obtain ⟨source, -, edge⟩ := List.mem_flatMap.mp mem
  exact wellFormed.target_lt edge

end RegularPattern.Simulator
