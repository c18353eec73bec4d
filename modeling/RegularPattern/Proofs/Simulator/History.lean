import RegularPattern.Proofs.Simulator.Steps

/-!
# Runs after different texts

Two simulators of one automaton that have matched different texts remember different stamps. All
that a run depends on is which states have the newest one, and after a new list this is the same in
both. So the next text is matched in the same way, list by list in the same order; only the lists
that were made before it can still be told apart, in the counter and, for the empty text, in the
list that is not current.

## Main definitions

* `Simulator.Alike` — two memories whose newest lists are the same.
-/

namespace RegularPattern.Simulator

variable {automaton : Automaton} {graph : Graph} {sim sim' : Simulator} {roots : List StateId}

/-- The current lists are the same, in their order, and the newest stamps mark the same states. -/
structure Alike (graph : Graph) (sim sim' : Simulator) : Prop where
  settled : Settled graph sim
  settled' : Settled graph sim'
  current_eq : sim.current = sim'.current
  onList_eq : ∀ id, sim.onList id = sim'.onList id

/-- The order of a list is determined by where its search begins. -/
theorem Frontier.alike (frontier : Frontier graph roots sim)
    (frontier' : Frontier graph roots sim') : Alike graph sim sim' := by
  have current_eq : sim.current = sim'.current :=
    Array.ext' (frontier.search.unique frontier'.search)
  refine ⟨frontier.toSettled, frontier'.toSettled, current_eq, fun id => ?_⟩
  rw [Bool.eq_iff_iff, frontier.onList_iff, frontier'.onList_iff, current_eq]

theorem Settled.alike_begin (settled : Settled automaton.toGraph sim)
    (settled' : Settled automaton.toGraph sim') (wellFormed : automaton.WellFormed) :
    Alike automaton.toGraph (sim.begin automaton) (sim'.begin automaton) := by
  have inRange : ∀ root ∈ [automaton.start], root < automaton.toGraph.size := by
    simpa using wellFormed.start_lt
  exact (settled.frontier wellFormed.graph inRange).alike
    (settled'.frontier wellFormed.graph inRange)

theorem Alike.step (alike : Alike graph sim sim') (wellFormed : graph.WellFormed) (c : Char) :
    Alike graph (sim.step graph c) (sim'.step graph c) := by
  have frontier := alike.settled.frontier_step wellFormed c
  rw [alike.current_eq] at frontier
  exact frontier.alike (alike.settled'.frontier_step wellFormed c)

/-- Alike memories give the same verdict, event by event, and stay alike. -/
theorem Alike.consume (alike : Alike automaton.toGraph sim sim')
    (wellFormed : automaton.WellFormed) (events : Array Event) (text : List Char) :
    (sim.consume automaton events text).1 = (sim'.consume automaton events text).1 ∧
      Alike automaton.toGraph (sim.consume automaton events text).2
        (sim'.consume automaton events text).2 ∧
      (sim.next = sim'.next → (sim.consume automaton events text).2.next =
        (sim'.consume automaton events text).2.next) := by
  induction text generalizing sim sim' events with
  | nil =>
    refine ⟨?_, alike, id⟩
    rw [Simulator.consume, Simulator.consume, alike.onList_eq]
  | cons c rest ih =>
    cases live : sim.current.isEmpty with
    | true =>
      have live' : sim'.current.isEmpty = true := alike.current_eq ▸ live
      rw [consume_cons_of_dead live, consume_cons_of_dead live']
      exact ⟨rfl, alike, id⟩
    | false =>
      have live' : sim'.current.isEmpty = false := alike.current_eq ▸ live
      have stepped := alike.step wellFormed.graph c
      rw [consume_cons_of_live live, consume_cons_of_live live', stepped.current_eq]
      obtain ⟨verdict_eq, after, next_eq⟩ := ih stepped _
      refine ⟨verdict_eq, after, fun _ => next_eq ?_⟩
      rw [next_step, next_step, alike.current_eq]

/-! ## Whole runs -/

@[simp] theorem next_begin (automaton : Automaton) (sim : Simulator) :
    (sim.begin automaton).next = sim.current :=
  current_foldl_closure automaton.toGraph [automaton.start] sim.newList

theorem Settled.live_begin (settled : Settled automaton.toGraph sim)
    (wellFormed : automaton.WellFormed) : (sim.begin automaton).current.isEmpty = false := by
  have tracks := settled.tracks_begin wellFormed
  rw [Array.isEmpty_eq_false_iff]
  exact Array.ne_empty_of_mem ((tracks.mem_current_iff automaton.start).mpr (.refl _))

/-- The first step of a text replaces the list that earlier texts have left. -/
theorem Settled.next_run_eq (settled : Settled automaton.toGraph sim)
    (settled' : Settled automaton.toGraph sim') (wellFormed : automaton.WellFormed)
    {text : List Char} (ne : text ≠ []) :
    (sim.run automaton text).2.next = (sim'.run automaton text).2.next := by
  obtain ⟨c, rest, rfl⟩ := List.exists_cons_of_ne_nil ne
  have alike := settled.alike_begin settled' wellFormed
  have stepped := alike.step wellFormed.graph c
  rw [Simulator.run, Simulator.run, consume_cons_of_live (settled.live_begin wellFormed),
    consume_cons_of_live (settled'.live_begin wellFormed), stepped.current_eq]
  refine (stepped.consume wellFormed _ rest).2.2 ?_
  rw [next_step, next_step, alike.current_eq]

/-- Before the stamps run out, a run adds the number of its lists to the stamp. -/
theorem stamp_run_of_lt {history : List (List Char)} {text : List Char} :
    let before := automaton.simulator.runAll automaton history
    let result := before.2.run automaton text
    listCount before.1 + (1 + result.1.steps) < 2 ^ 64 →
      result.2.stamp = before.2.stamp + (1 + result.1.steps) := by
  intro before result few
  have before_eq : before.2.stamp = listCount before.1 :=
    stamp_runAll_of_lt (Nat.lt_of_le_of_lt (Nat.le_add_right _ _) few)
  have le : before.2.stamp + (1 + result.1.steps) ≤ maxStamp :=
    before_eq ▸ Nat.le_sub_one_of_lt few
  exact (stamp_run automaton before.2 text).trans (iterate_nextStamp le)

/-- Whatever texts two simulators have matched before, they give the same verdict on a further one,
report the same events on the way, count as many new lists and end with the same current list. The
other list is the same too if the text is not empty; else it is the list that was current before. -/
theorem run_eq_of_histories (wellFormed : automaton.WellFormed)
    (history history' : List (List Char)) (text : List Char) :
    let before := automaton.simulator.runAll automaton history
    let before' := automaton.simulator.runAll automaton history'
    let result := before.2.run automaton text
    let result' := before'.2.run automaton text
    let new := 1 + result.1.steps
    result.1 = result'.1 ∧
    (result.2.stamp = nextStamp^[new] before.2.stamp ∧
      result'.2.stamp = nextStamp^[new] before'.2.stamp) ∧
    (listCount before.1 + new < 2 ^ 64 → result.2.stamp = before.2.stamp + new) ∧
    (listCount before'.1 + new < 2 ^ 64 → result'.2.stamp = before'.2.stamp + new) ∧
    result.2.current = result'.2.current ∧
    (text ≠ [] → result.2.next = result'.2.next) ∧
    (text = [] → result.2.next = before.2.current ∧ result'.2.next = before'.2.current) := by
  intro before before' result result' new
  have settled : Settled automaton.toGraph before.2 := settled_runAll wellFormed history
  have settled' : Settled automaton.toGraph before'.2 := settled_runAll wellFormed history'
  have consumed := (settled.alike_begin settled' wellFormed).consume wellFormed #[] text
  have verdict_eq : result.1 = result'.1 := consumed.1
  have new_eq : new = 1 + result'.1.steps := by rw [← verdict_eq]
  refine ⟨verdict_eq, ⟨stamp_run automaton before.2 text, ?_⟩, stamp_run_of_lt, ?_,
    consumed.2.1.current_eq, settled.next_run_eq settled' wellFormed, ?_⟩
  · rw [new_eq]
    exact stamp_run automaton before'.2 text
  · rw [new_eq]
    exact stamp_run_of_lt
  · rintro rfl
    exact ⟨next_begin automaton before.2, next_begin automaton before'.2⟩

theorem run_eq_of_histories_of_cyclic :
    cyclic.WellFormed ∧
      let before := cyclic.simulator.runAll cyclic [['b', 'a'], ['a'], []]
      let result := before.2.run cyclic ['a', 'b', 'a']
      let result' := cyclic.simulator.run cyclic ['a', 'b', 'a']
      listCount before.1 + (1 + result.1.steps) < 2 ^ 64 ∧
        result.1 = result'.1 ∧ result.2.stamp = before.2.stamp + (1 + result.1.steps) ∧
        result.2.next = result'.2.next := by
  have wellFormed : cyclic.WellFormed := by decide
  have few := Nat.add_le_add
    (listCount_runAll_le cyclic cyclic.simulator [['b', 'a'], ['a'], []])
    (Nat.add_le_add_left (steps_le_length cyclic
      (cyclic.simulator.runAll cyclic [['b', 'a'], ['a'], []]).2 ['a', 'b', 'a']) 1)
  have lt := Nat.lt_of_le_of_lt few (by decide : _ < 2 ^ 64)
  obtain ⟨verdict_eq, -, stamp_eq, -, -, next_eq, -⟩ :=
    run_eq_of_histories wellFormed [['b', 'a'], ['a'], []] [] ['a', 'b', 'a']
  exact ⟨wellFormed, lt, verdict_eq, stamp_eq lt, next_eq (by decide)⟩

end RegularPattern.Simulator
