import RegularPattern.Proofs.Automaton.Language
import RegularPattern.Proofs.Graph.Strict

/-!
# The shape of compiled patterns

A compiled pattern is in the normal form of Thompson's construction: its exit is blank, each other
state has one consuming edge or one or two epsilon edges, and no edge was ever added twice.

## Main definitions

* `Automaton.NormalForm` — the normal form.
-/

namespace RegularPattern

/-- Entry and exit are two states, the exit is blank and all other states branch, no edge is a loop,
and at most two edges enter any state. -/
structure Automaton.NormalForm (automaton : Automaton) : Prop where
  start_lt : automaton.start < automaton.size
  out_lt : automaton.out < automaton.size
  start_ne_out : automaton.start ≠ automaton.out
  blank_out : automaton.state automaton.out = {}
  branching : ∀ id < automaton.size, id ≠ automaton.out → (automaton.state id).Branching
  loopless : ∀ edge, automaton.HasEdge edge → edge.source ≠ edge.target
  entering_le : ∀ id, (automaton.entering id).encard ≤ 2

theorem Tree.normalForm_automaton (tree : Tree .expression) (pattern : String) (flags : Flags) :
    (tree.automaton pattern flags).NormalForm := by
  have built := tree.built_automaton pattern flags
  have wellFormed := tree.wellFormed_automaton pattern flags
  have shaped := (Graph.constructed_build tree (by decide : ({} : Graph).WellFormed)).shaped
  have inside {id : StateId} (lt : id < (tree.automaton pattern flags).size) :
      id ∈ Set.Ico 0 (tree.automaton pattern flags).size := ⟨Nat.zero_le _, lt⟩
  refine ⟨wellFormed.start_lt, wellFormed.out_lt, built.owns.start_ne_out, shaped.blank_out, ?_, ?_,
    ?_⟩
  · exact fun id lt => shaped.branching id (inside lt)
  · intro edge has
    exact shaped.loopless edge has (inside (Graph.source_lt_of_hasEdge has))
  · intro id
    rcases lt_or_ge id (tree.automaton pattern flags).size with lt | ge
    · exact shaped.entering_le id (inside lt)
    · rw [built.wellFormed.entering_eq_empty ge, Set.encard_empty]
      exact zero_le

/-- A compiled pattern is in normal form, and a store that gives up at an edge that it has already
reads the pattern to the same graph. -/
theorem compiled_normalForm {pattern : String} {flags : Flags} {automaton : Automaton}
    (compiled : compile pattern flags = .ok automaton) :
    automaton.NormalForm ∧
      (thompson Graph.strictStore).read pattern.toList (some {}) =
        (.ok automaton.toFragment, some automaton.toGraph) := by
  obtain ⟨tree, derives, rfl⟩ := exists_derives_of_compile compiled
  refine ⟨tree.normalForm_automaton pattern flags, ?_⟩
  rw [derives.read_eq, Graph.build_strictStore tree (by decide)]
  rfl

theorem compiled_normalForm_of_nested :
    ∃ automaton, compile "((a?)*|b+|)c" .none = .ok automaton ∧ automaton.NormalForm ∧
      (thompson Graph.strictStore).read "((a?)*|b+|)c".toList (some {}) =
        (.ok automaton.toFragment, some automaton.toGraph) := by
  obtain ⟨automaton, compiled⟩ :=
    exists_compile (by decide : Brackets.fault? "((a?)*|b+|)c".toList = none) .none
  exact ⟨automaton, compiled, compiled_normalForm compiled⟩

end RegularPattern
