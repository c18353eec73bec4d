import RegularPattern.Proofs.Simulator.Steps

/-!
# The memory that runs leave

Right after a list is finished it is the current one, and the other list is the one before it. Each
of the two is closed and has no repetitions; a state remembers the newest stamp exactly if it is on
the newest list. What it remembers of the list before may have been overwritten since, but by the
newest stamp alone. Every further list, be it for a step or for the next text, keeps this, also
where counting begins anew: the list before then counts as the one with the stamp zero.

## Main definitions

* `Simulator.Finished` — a finished list, as far as the next one depends on it.
* `Simulator.Layered` — the two last lists.
-/

namespace RegularPattern.Simulator

variable {automaton : Automaton} {graph : Graph} {sim : Simulator} {roots : List StateId}

/-- A list without repetitions that epsilon edges do not lead out of. -/
structure Complete (graph : Graph) (list : Array StateId) : Prop where
  nodup : list.toList.Nodup
  closed : ∀ s ∈ list, ∀ t ∈ graph.epsilons s, t ∈ list

/-- The current list is complete, and of the stamps that were given out its states have the
newest. Before the first list no stamp was given out. -/
structure Finished (graph : Graph) (sim : Simulator) : Prop extends Settled graph sim where
  current : Complete graph sim.current
  stamped : ∀ id ∈ sim.current, sim.stamps[id]? = some sim.stamp
  listed : 1 ≤ sim.stamp → ∀ id, sim.stamps[id]? = some sim.stamp → id ∈ sim.current

/-- The current list is the newest one, and the other list is the one before it. -/
structure Layered (graph : Graph) (sim : Simulator) : Prop extends Settled graph sim where
  current : Complete graph sim.current
  mem_current_iff : ∀ id, id ∈ sim.current ↔ sim.stamps[id]? = some sim.stamp
  next : Complete graph sim.next
  stamped_next : ∀ id ∈ sim.next,
    sim.stamps[id]? = some (sim.stamp - 1) ∨ sim.stamps[id]? = some sim.stamp
  mem_next : 2 ≤ sim.stamp → ∀ id, sim.stamps[id]? = some (sim.stamp - 1) → id ∈ sim.next

theorem finished_initial (graph : Graph) : Finished graph (initial graph) where
  toSettled := settled_initial graph
  current := ⟨.nil, nofun⟩
  stamped := nofun
  listed := nofun

theorem Layered.finished (layered : Layered graph sim) : Finished graph sim where
  toSettled := layered.toSettled
  current := layered.current
  stamped id := (layered.mem_current_iff id).mp
  listed _ id := (layered.mem_current_iff id).mpr

theorem complete_of_search {list : Array StateId} (search : graph.DepthFirst roots [] list.toList) :
    Complete graph list where
  nodup := search.nodup
  closed s mem t edge := by
    rw [← Array.mem_toList_iff] at mem ⊢
    simpa using search.mem_of_epsilon mem edge

/-! ## One more list -/

/-- A further list leaves the one before it in the other place. -/
theorem Finished.layered (finished : Finished graph sim) (wellFormed : graph.WellFormed)
    (inRange : ∀ root ∈ roots, root < graph.size) :
    Layered graph (roots.foldl (closure graph) sim.newList).swap := by
  have frontier := finished.toSettled.frontier wellFormed inRange
  obtain ⟨order, -, listed, closed⟩ := finished.toSettled.exists_enlist wellFormed inRange
  rw [closed] at frontier ⊢
  have stamp_eq : (sim.newList.enlist order).swap.stamp = sim.newList.stamp := rfl
  have next_eq : (sim.newList.enlist order).swap.next = sim.current := rfl
  have stamps_at (id : StateId) : (sim.newList.enlist order).swap.stamps[id]? =
      if id ∈ order then some sim.newList.stamp else sim.newList.stamps[id]? :=
    getElem?_stamps_enlist listed id
  refine ⟨frontier.toSettled, complete_of_search frontier.search, ?_, ?_, ?_, ?_⟩
  · intro id
    rw [← frontier.onList_iff, onList, beq_iff_eq]
  · exact next_eq ▸ finished.current
  · intro id mem
    have stamped := finished.stamped id (next_eq ▸ mem)
    rw [stamps_at, stamp_eq]
    split
    · exact Or.inr rfl
    · refine Or.inl ?_
      rcases sim.newList_cases with ⟨counted, kept⟩ | ⟨anew, forgotten⟩
      · rw [counted, kept, stamped, Nat.add_sub_cancel]
      · have lt : id < sim.stamps.size := (Array.getElem?_eq_some_iff.mp stamped).1
        rw [anew, forgotten, Array.getElem?_replicate, if_pos lt]
  · -- A state with the older stamp is not on the new list, so it had that stamp before.
    intro two id stamped
    rw [stamps_at, stamp_eq] at stamped
    rw [stamp_eq] at two
    rw [next_eq]
    rcases sim.newList_cases with ⟨counted, kept⟩ | ⟨anew, -⟩
    · rw [counted] at two stamped
      rw [kept, Nat.add_sub_cancel] at stamped
      split at stamped
      · simp at stamped
      · exact finished.listed (Nat.le_of_succ_le_succ two) id stamped
    · rw [anew] at two
      exact absurd two (by decide)

theorem Finished.layered_begin (finished : Finished automaton.toGraph sim)
    (wellFormed : automaton.WellFormed) : Layered automaton.toGraph (sim.begin automaton) :=
  finished.layered wellFormed.graph (List.forall_mem_singleton.mpr wellFormed.start_lt)

theorem Finished.layered_step (finished : Finished graph sim) (wellFormed : graph.WellFormed)
    (c : Char) : Layered graph (sim.step graph c) := by
  rw [step_eq_foldl_closure]
  refine finished.layered wellFormed ?_
  intro root mem
  obtain ⟨source, -, edge⟩ := List.mem_flatMap.mp mem
  exact wellFormed.target_lt edge

/-! ## Runs -/

theorem Layered.advance (layered : Layered graph sim) (wellFormed : graph.WellFormed)
    (word : List Char) : Layered graph (sim.advance graph word) := by
  induction word generalizing sim with
  | nil => exact layered
  | cons c word ih => exact ih (layered.finished.layered_step wellFormed c)

theorem Finished.run (finished : Finished automaton.toGraph sim)
    (wellFormed : automaton.WellFormed) (text : List Char) :
    Layered automaton.toGraph (sim.run automaton text).2 := by
  obtain ⟨consumed, left, ran⟩ := exists_ran automaton sim text
  rw [ran.memory_eq]
  exact (finished.layered_begin wellFormed).advance wellFormed.graph consumed

theorem Finished.runAll (finished : Finished automaton.toGraph sim)
    (wellFormed : automaton.WellFormed) {texts : List (List Char)} (ne : texts ≠ []) :
    Layered automaton.toGraph (sim.runAll automaton texts).2 := by
  induction texts generalizing sim with
  | nil => exact absurd rfl ne
  | cons text texts ih =>
    have first := finished.run wellFormed text
    cases texts with
    | nil => exact first
    | cons => exact ih first.finished (List.cons_ne_nil _ _)

/-- After any texts the memory holds the last two lists and nothing else. As long as there are
stamps for all of them, the stamp is the number of lists that were made, one for each text and one
for each step. -/
theorem layered_runAll (wellFormed : automaton.WellFormed) {history : List (List Char)}
    (ne : history ≠ []) :
    let result := automaton.simulator.runAll automaton history
    Layered automaton.toGraph result.2 ∧
      result.2.stamp = nextStamp^[listCount result.1] 0 ∧
      (listCount result.1 < 2 ^ 64 → result.2.stamp = listCount result.1) := by
  have finished : Finished automaton.toGraph automaton.simulator :=
    finished_initial automaton.toGraph
  exact ⟨finished.runAll wellFormed ne, stamp_runAll automaton automaton.simulator history,
    stamp_runAll_of_lt⟩

theorem layered_runAll_of_cyclic :
    cyclic.WellFormed ∧ [['b', 'a'], [], ['a']] ≠ [] ∧
      let result := cyclic.simulator.runAll cyclic [['b', 'a'], [], ['a']]
      listCount result.1 < 2 ^ 64 ∧ Layered cyclic.toGraph result.2 ∧
        result.2.stamp = listCount result.1 := by
  have wellFormed : cyclic.WellFormed := by decide
  have le := listCount_runAll_le cyclic cyclic.simulator [['b', 'a'], [], ['a']]
  have lt := Nat.lt_of_le_of_lt le (by decide : _ < 2 ^ 64)
  obtain ⟨layered, -, stamp_eq⟩ :=
    layered_runAll wellFormed (by decide : [['b', 'a'], [], ['a']] ≠ [])
  exact ⟨wellFormed, by decide, lt, layered, stamp_eq lt⟩

end RegularPattern.Simulator
