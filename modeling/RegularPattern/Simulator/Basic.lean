import RegularPattern.Graph.Basic

/-!
# The memory of a simulator, and one list of live states

A simulator follows a graph over the set of states that are live. It keeps the live states as a
list without repetitions. Each list that it makes has a number, the stamp, and each state
remembers the stamp of the last list that it was put on; so a state is expanded at most once for
each list, and nothing has to be cleared between lists or between texts. Only after the largest
stamp, when counting begins anew, are all of them forgotten.

## Main definitions

* `Simulator`, `Simulator.initial` — the memory, and its value before the first text.
* `Simulator.newList` — the start of a list, with the next stamp.
* `Simulator.closure` — adds a state, and all that epsilon edges reach, to the list being made.
* `Simulator.step` — the list after one more character.
-/

namespace RegularPattern

/-- The memory of a simulator. -/
structure Simulator where
  /-- The live states. -/
  current : Array StateId
  /-- The list being made. -/
  next : Array StateId
  /-- States still to be visited; the head is visited first. -/
  stack : List StateId
  /-- For each state, the stamp of the last list that it was put on. -/
  stamps : Array Nat
  /-- The stamp of the newest list. -/
  stamp : Nat
  deriving DecidableEq

namespace Simulator

/-- A simulator that has made no list yet. -/
def initial (graph : Graph) : Simulator where
  current := #[]
  next := #[]
  stack := []
  stamps := Array.replicate graph.size 0
  stamp := 0

/-- The largest stamp, which is also the largest number of 64 bits. -/
def maxStamp : Nat := UInt64.size - 1

/-- The stamp of the next list. After the largest stamp counting begins anew. -/
def nextStamp (stamp : Nat) : Nat :=
  if stamp < maxStamp then stamp + 1 else 1

theorem nextStamp_le (stamp : Nat) : nextStamp stamp ≤ maxStamp := by
  unfold nextStamp
  split
  · assumption
  · decide

/-- Starts a list. When counting begins anew, no state remembers a list. -/
def newList (sim : Simulator) : Simulator :=
  { sim with
    next := #[]
    stamps := if sim.stamp < maxStamp then sim.stamps else Array.replicate sim.stamps.size 0
    stamp := nextStamp sim.stamp }

@[simp] theorem size_stamps_newList (sim : Simulator) :
    sim.newList.stamps.size = sim.stamps.size := by
  unfold newList
  split <;> simp

/-- Older stamps stay, or they have all become zero and the new stamp is one. -/
theorem newList_cases (sim : Simulator) :
    (sim.newList.stamp = sim.stamp + 1 ∧ sim.newList.stamps = sim.stamps) ∨
      (sim.newList.stamp = 1 ∧ sim.newList.stamps = Array.replicate sim.stamps.size 0) := by
  unfold newList nextStamp
  split <;> simp

/-- Makes the finished list the current one. -/
def swap (sim : Simulator) : Simulator :=
  { sim with current := sim.next, next := sim.current }

/-- Whether the state is on the newest list. -/
def onList (sim : Simulator) (id : StateId) : Bool :=
  sim.stamps[id]? == some sim.stamp

/-- The sum of what `f` gives for each of the states. -/
def total (f : StateId → Nat) : List StateId → Nat
  | [] => 0
  | id :: ids => f id + total f ids

theorem total_le_total {f g : StateId → Nat} (le : ∀ id, f id ≤ g id) (ids : List StateId) :
    total f ids ≤ total g ids := by
  induction ids with
  | nil => exact Nat.le_refl _
  | cons id ids ih => exact Nat.add_le_add (le id) ih

/-- A sum whose terms nowhere rise falls by as much as one of its terms. -/
theorem total_add_le_total {f g : StateId → Nat} {d : Nat} {id : StateId} {ids : List StateId}
    (le : ∀ id, f id ≤ g id) (here : f id + d ≤ g id) (mem : id ∈ ids) :
    total f ids + d ≤ total g ids := by
  induction ids with
  | nil => cases mem
  | cons other ids ih =>
    simp only [total]
    rcases List.mem_cons.mp mem with rfl | mem
    · have := total_le_total le ids
      omega
    · have := le other
      have := ih mem
      omega

/-- How many visits a state may still cause: one for itself and one for each of its epsilon edges,
unless it is on the newest list already. -/
def pendingAt (graph : Graph) (sim : Simulator) (id : StateId) : Nat :=
  if sim.onList id then 0 else 1 + (graph.epsilons id).length

/-- A bound on the visits that are left. -/
def pending (graph : Graph) (sim : Simulator) : Nat :=
  sim.stack.length + total (sim.pendingAt graph) (List.range sim.stamps.size)

/-- Puts the state on the newest list and its epsilon targets on the stack, the first on top. -/
def visit (graph : Graph) (sim : Simulator) (id : StateId) : Simulator :=
  { sim with
    next := sim.next.push id
    stack := graph.epsilons id ++ sim.stack
    stamps := sim.stamps.setIfInBounds id sim.stamp }

theorem onList_visit (graph : Graph) (sim : Simulator) (id other : StateId) :
    (sim.visit graph id).onList other =
      (sim.onList other || (other == id && decide (id < sim.stamps.size))) := by
  by_cases same : other = id
  · subst same
    by_cases lt : other < sim.stamps.size <;> simp [onList, visit, lt]
  · simp [onList, visit, same, Ne.symm same]

/-- Visiting a state that is not on the list leaves less to do, its own visit included. -/
theorem pending_visit (graph : Graph) (sim : Simulator) {id : StateId}
    (lt : id < sim.stamps.size) (fresh : sim.onList id = false) :
    (sim.visit graph id).pending graph + 1 ≤ sim.pending graph := by
  have le (j : StateId) : (sim.visit graph id).pendingAt graph j ≤ sim.pendingAt graph j := by
    unfold pendingAt
    rw [onList_visit]
    by_cases on : sim.onList j = true
    · simp [on]
    · simp only [on]
      split <;> simp
  have here : (sim.visit graph id).pendingAt graph id + (1 + (graph.epsilons id).length)
      ≤ sim.pendingAt graph id := by
    unfold pendingAt
    simp [onList_visit, fresh, lt]
  have := total_add_le_total le here (List.mem_range.mpr lt)
  simp only [pending, visit, List.length_append, Array.size_setIfInBounds] at this ⊢
  omega

/-- The simulator with another stack. -/
def withStack (sim : Simulator) (stack : List StateId) : Simulator :=
  { sim with stack }

theorem pending_withStack (graph : Graph) {sim : Simulator} {id : StateId} {rest : List StateId}
    (stacked : sim.stack = id :: rest) :
    (sim.withStack rest).pending graph + 1 = sim.pending graph := by
  have same : (sim.withStack rest).pendingAt graph = sim.pendingAt graph := rfl
  simp only [pending, same, stacked, List.length_cons]
  simp only [withStack]
  omega

/-- Visits what is on the stack, and what that puts there, until nothing is left. A state that is
on the list already is passed over, and so is a number that belongs to no state. -/
def drain (graph : Graph) (sim : Simulator) : Simulator :=
  match stacked : sim.stack with
  | [] => sim
  | id :: rest =>
    have := pending_withStack graph stacked
    if fresh : id < sim.stamps.size ∧ (sim.withStack rest).onList id = false then
      have := pending_visit graph (sim.withStack rest) fresh.1 fresh.2
      drain graph ((sim.withStack rest).visit graph id)
    else
      drain graph (sim.withStack rest)
termination_by sim.pending graph

theorem drain_nil {graph : Graph} {sim : Simulator} (empty : sim.stack = []) :
    sim.drain graph = sim := by
  unfold drain
  split
  · rfl
  · simp_all

theorem drain_cons {graph : Graph} {sim : Simulator} {id : StateId} {rest : List StateId}
    (stacked : sim.stack = id :: rest) :
    sim.drain graph =
      if id < sim.stamps.size ∧ sim.onList id = false then
        ((sim.withStack rest).visit graph id).drain graph
      else
        (sim.withStack rest).drain graph := by
  rw [drain]
  split
  · simp_all
  · next same =>
    rw [stacked] at same
    cases same
    rfl

/-- Adds a state to the list being made, with everything that epsilon edges reach from it. -/
def closure (graph : Graph) (sim : Simulator) (id : StateId) : Simulator :=
  (sim.withStack (id :: sim.stack)).drain graph

/-- The list of what the live states reach by consuming `c`, in the order of the live states. -/
def step (graph : Graph) (sim : Simulator) (c : Char) : Simulator :=
  (sim.current.foldl
    (fun sim id => (graph.targets id c).foldl (closure graph) sim) sim.newList).swap

end Simulator

end RegularPattern
