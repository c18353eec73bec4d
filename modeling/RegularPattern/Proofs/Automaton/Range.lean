import RegularPattern.Proofs.Automaton.Language
import RegularPattern.Proofs.Graph.Strict
import RegularPattern.Proofs.Simulator.Strict

/-!
# Patterns and their state numbers

From the first fragment of a pattern to the last character of a text, every state number that is
looked up belongs to a state. Reading in a store that gives up at any other number, and matching
with every number checked, are the same as without these checks.
-/

namespace RegularPattern

/-- Whether a pattern compiles or is refused halfway, each edge that is added has both ends among
the states made so far. In a compiled pattern entry, exit and the ends of all edges are states, and
after any texts the run on a further one looks up no state and no stamp that is not there. -/
theorem state_numbers_inRange (pattern : String) (flags : Flags) :
    (thompson Graph.strictStore).read pattern.toList (some {}) =
      (((thompson Graph.store).read pattern.toList {}).1,
        some ((thompson Graph.store).read pattern.toList {}).2) ∧
    ∀ automaton, compile pattern flags = .ok automaton →
      automaton.WellFormed ∧
      ∀ (history : List (List Char)) (text : String),
        let sim := (automaton.simulator.runAll automaton history).2
        sim.run? automaton text.toList = some (sim.run automaton text.toList) := by
  refine ⟨Graph.read_strictStore pattern.toList (by decide), fun automaton compiled => ?_⟩
  have wellFormed := wellFormed_of_compile compiled
  refine ⟨wellFormed, fun history text => ?_⟩
  exact (Simulator.settled_runAll wellFormed history).run?_eq wellFormed text.toList

/-- A pattern with a loop inside a loop, and the same one with a parenthesis too many. -/
theorem state_numbers_inRange_of_loops :
    (thompson Graph.strictStore).read "(a*|)+b)c".toList (some {}) =
      (((thompson Graph.store).read "(a*|)+b)c".toList {}).1,
        some ((thompson Graph.store).read "(a*|)+b)c".toList {}).2) ∧
    ∃ automaton, compile "(a*|)+b" .none = .ok automaton ∧ automaton.WellFormed ∧
      let sim := (automaton.simulator.runAll automaton [['a', 'x'], [], ['b']]).2
      sim.run? automaton "aab".toList = some (sim.run automaton "aab".toList) := by
  obtain ⟨automaton, compiled⟩ :=
    exists_compile (by decide : Brackets.fault? "(a*|)+b".toList = none) .none
  obtain ⟨wellFormed, inRange⟩ := (state_numbers_inRange "(a*|)+b" .none).2 automaton compiled
  exact ⟨(state_numbers_inRange "(a*|)+b)c" .none).1, automaton, compiled, wellFormed,
    inRange [['a', 'x'], [], ['b']] "aab"⟩

end RegularPattern
