import RegularPattern.Proofs.Automaton.Composition
import RegularPattern.Proofs.Graph.EdgeCount

/-!
# The size of compiled patterns

States and edges of a compiled pattern can be counted in its derivation, and there are at most four
states for each character of the pattern and two more.
-/

namespace RegularPattern

theorem Tree.edgeCount_automaton (tree : Tree .expression) (pattern : String) (flags : Flags) :
    (tree.automaton pattern flags).edgeCount + 1 =
      2 * tree.items.length + tree.items.count .quantifier + tree.items.count .bar := by
  have count := Graph.edgeCount_build tree (by decide : ({} : Graph).WellFormed)
  rwa [show ({} : Graph).edgeCount = 0 from rfl, Nat.zero_add] at count

/-- In a compiled pattern each literal, each empty term, each quantifier and each bar makes two
states. There is one edge less than states, and one more for each quantifier and each bar. The
number of states is at most four times the length of the pattern and two, and only patterns of
nothing but bars reach it. -/
theorem compiled_size_eq {pattern : String} {flags : Flags} {automaton : Automaton}
    (compiled : compile pattern flags = .ok automaton) :
    ∃ tree : Tree .expression, (∀ other, other.Derives pattern.toList ↔ other = tree) ∧
      automaton.size = 2 * (tree.items.count .literal + tree.items.count .emptyTerm
        + tree.items.count .quantifier + tree.items.count .bar) ∧
      automaton.edgeCount + 1 =
        automaton.size + tree.items.count .quantifier + tree.items.count .bar ∧
      automaton.size ≤ 4 * pattern.length + 2 ∧
      (automaton.size = 4 * pattern.length + 2 ↔ ∀ c ∈ pattern.toList, c = '|') := by
  obtain ⟨tree, derives, rfl⟩ := exists_derives_of_compile compiled
  have size : (tree.automaton pattern flags).size = 2 * tree.items.length := by
    rw [tree.size_automaton, tree.length_items]
  obtain ⟨le, eq_iff⟩ : tree.Bounded := derives.valid.bounded
  rw [derives.text_eq, String.length_toList] at le eq_iff
  refine ⟨tree, derives.iff_eq, ?_, ?_, ?_, ?_⟩
  · rw [size, ← length_eq_counts]
  · rw [size, tree.edgeCount_automaton]
  · omega
  · rw [← eq_iff]
    omega

/-- A pattern with all kinds of operations, and an empty term in a group. -/
theorem compiled_size_eq_of_group :
    ∃ automaton, compile "\\*+(a|)?|" .none = .ok automaton ∧
      ∃ tree : Tree .expression, (∀ other, other.Derives "\\*+(a|)?|".toList ↔ other = tree) ∧
        automaton.size = 2 * (tree.items.count .literal + tree.items.count .emptyTerm
          + tree.items.count .quantifier + tree.items.count .bar) ∧
        automaton.edgeCount + 1 =
          automaton.size + tree.items.count .quantifier + tree.items.count .bar ∧
        automaton.size ≤ 4 * "\\*+(a|)?|".length + 2 ∧
        (automaton.size = 4 * "\\*+(a|)?|".length + 2 ↔ ∀ c ∈ "\\*+(a|)?|".toList, c = '|') := by
  obtain ⟨automaton, compiled⟩ :=
    exists_compile (by decide : Brackets.fault? "\\*+(a|)?|".toList = none) .none
  exact ⟨automaton, compiled, compiled_size_eq compiled⟩

end RegularPattern
