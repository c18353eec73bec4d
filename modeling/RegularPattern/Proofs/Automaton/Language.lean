import RegularPattern.Proofs.Automaton.Compile
import RegularPattern.Proofs.Graph.Construction
import RegularPattern.Proofs.Simulator.Acceptance

/-!
# The language of a pattern

The automaton of a pattern accepts the words of the pattern's derivation: what the construction
builds of the derivation reads its language along paths, and the simulator decides paths.
-/

namespace RegularPattern

namespace Tree

theorem built_automaton (tree : Tree .expression) (pattern : String) (flags : Flags) :
    Graph.Built {} (tree.automaton pattern flags).toGraph (tree.automaton pattern flags).toFragment
      tree.language :=
  Graph.built_build tree (by decide)

theorem wellFormed_automaton (tree : Tree .expression) (pattern : String) (flags : Flags) :
    (tree.automaton pattern flags).WellFormed where
  graph := (tree.built_automaton pattern flags).wellFormed
  start_lt := (tree.built_automaton pattern flags).owns.start_mem.2
  out_lt := (tree.built_automaton pattern flags).owns.out_mem.2

theorem path_automaton_iff (tree : Tree .expression) (pattern : String) (flags : Flags)
    (word : List Char) :
    (tree.automaton pattern flags).Path (tree.automaton pattern flags).start word
      (tree.automaton pattern flags).out ↔ word ∈ tree.language := by
  rw [← (tree.built_automaton pattern flags).language_eq]
  rfl

end Tree

theorem wellFormed_of_compile {pattern : String} {flags : Flags} {automaton : Automaton}
    (compiled : compile pattern flags = .ok automaton) : automaton.WellFormed := by
  obtain ⟨tree, -, rfl⟩ := exists_derives_of_compile compiled
  exact tree.wellFormed_automaton pattern flags

namespace Automaton

variable {automaton : Automaton}

theorem accepts_iff_path (wellFormed : automaton.WellFormed) (text : String) :
    automaton.accepts text = true ↔
      automaton.Path automaton.start text.toList automaton.out :=
  (Simulator.settled_initial automaton.toGraph).isMatch_iff wellFormed text

theorem accepts_withFlags (wellFormed : automaton.WellFormed) (flags : Flags) (text : String) :
    ({ automaton with flags } : Automaton).accepts text = automaton.accepts text := by
  have same : ({ automaton with flags } : Automaton).WellFormed :=
    ⟨wellFormed.graph, wellFormed.start_lt, wellFormed.out_lt⟩
  rw [Bool.eq_iff_iff, accepts_iff_path same, accepts_iff_path wellFormed]

/-- One simulator for all texts answers as a new one for each. -/
theorem map_accepted_verdicts (wellFormed : automaton.WellFormed) (texts : List String) :
    (automaton.verdicts texts).map Verdict.accepted = texts.map automaton.accepts :=
  (Simulator.settled_initial automaton.toGraph).map_accepted_runAll wellFormed texts

end Automaton

/-- A compiled pattern accepts exactly the texts in the language of its derivation, of which it has
no other. -/
theorem accepts_iff_mem_language {pattern : String} {flags : Flags} {automaton : Automaton}
    (compiled : compile pattern flags = .ok automaton) :
    ∃ tree : Tree .expression, (∀ other, other.Derives pattern.toList ↔ other = tree) ∧
      ∀ text : String, automaton.accepts text = true ↔ text.toList ∈ tree.language := by
  obtain ⟨tree, derives, rfl⟩ := exists_derives_of_compile compiled
  refine ⟨tree, derives.iff_eq, fun text => ?_⟩
  rw [Automaton.accepts_iff_path (tree.wellFormed_automaton pattern flags), tree.path_automaton_iff]

/-- The derivation of `(a*|)+`, whose group denotes the empty word in two ways. -/
def nullable : Tree .expression :=
  let letters := (Tree.nothing).append (.quantified (.plain 'a') .zeroOrMore)
  let group := Tree.group ((Tree.single letters).bar .nothing)
  .single (Tree.nothing.append (.quantified group .oneOrMore))

theorem nullable_accepts_iff :
    ∃ automaton, compile "(a*|)+" .none = .ok automaton ∧
      ∃ tree : Tree .expression, (∀ other, other.Derives "(a*|)+".toList ↔ other = tree) ∧
        ∀ text : String, automaton.accepts text = true ↔ text.toList ∈ tree.language := by
  have derives : nullable.Derives "(a*|)+".toList :=
    ⟨by simp [nullable, Tree.Valid, Tree.endsBare], rfl⟩
  have compiled : compile "(a*|)+" .none = .ok (nullable.automaton "(a*|)+" .none) :=
    compile_of_derives derives
  exact ⟨_, compiled, accepts_iff_mem_language compiled⟩

end RegularPattern
