import RegularPattern.Proofs.Automaton.Shape
import RegularPattern.Proofs.Graph.Renaming

/-!
# No other character is special

A renaming of the characters that are not special carries over from a pattern to all that is made
of it: the fault if it has one, else the automaton and its answers.
-/

namespace RegularPattern

variable {f : Renaming}

theorem Automaton.NormalForm.plain {automaton : Automaton} (normalForm : automaton.NormalForm)
    (id : StateId) : (automaton.state id).Plain := by
  rcases Nat.lt_or_ge id automaton.size with lt | le
  · by_cases out : id = automaton.out
    · rw [out, normalForm.blank_out]
      exact .inl rfl
    · exact (normalForm.branching id lt out).plain
  · rw [Graph.state_of_size_le le]
    exact .inl rfl

namespace Tree

variable (tree : Tree .expression) (pattern : String) (flags : Flags)

theorem toFragment_automaton_rename :
    ((tree.rename f).automaton (pattern.map f) flags).toFragment =
      (tree.automaton pattern flags).toFragment :=
  (Graph.renamed_empty.build tree).1

theorem renamed_automaton_rename :
    Graph.Renamed f.perm (tree.automaton pattern flags).toGraph
      ((tree.rename f).automaton (pattern.map f) flags).toGraph :=
  (Graph.renamed_empty.build tree).2

theorem accepts_automaton_rename (text : String) :
    ((tree.rename f).automaton (pattern.map f) flags).accepts (text.map f) =
      (tree.automaton pattern flags).accepts text := by
  have fragment := tree.toFragment_automaton_rename (f := f) pattern flags
  have renamed := tree.renamed_automaton_rename (f := f) pattern flags
  rw [Bool.eq_iff_iff, Automaton.accepts_iff_path (wellFormed_automaton _ _ _),
    Automaton.accepts_iff_path (wellFormed_automaton _ _ _), String.toList_map, fragment,
    renamed.path_map_iff]

end Tree

/-- Whatever characters are renamed, if only the special ones stay what they are: the renamed
pattern has the fault of the pattern, at the same place, or else it compiles as the pattern does.
Then its automaton has as many states, the same entry and exit and the same epsilon edges, a
consuming edge on the renamed character for each consuming edge, and it accepts a renamed text
exactly if the automaton of the pattern accepts the text. -/
theorem compile_renamed (f : Renaming) (pattern : String) (flags : Flags) :
    match compile pattern flags with
    | .error error =>
      compile (pattern.map f) flags = .error { error with pattern := pattern.map f }
    | .ok automaton =>
      ∃ image, compile (pattern.map f) flags = .ok image ∧
        image.size = automaton.size ∧ image.toFragment = automaton.toFragment ∧
        (∀ id, image.epsilons id = automaton.epsilons id ∧
          (image.state id).transitions =
            (automaton.state id).transitions.map fun entry => (f entry.1, entry.2)) ∧
        ∀ text : String, image.accepts (text.map f) = automaton.accepts text := by
  split
  · next error refused =>
    apply compile_of_fault?
    rw [String.toList_map, Brackets.fault?_map, (fault?_of_compile refused).1]
  · next automaton compiled =>
    obtain ⟨tree, derives, rfl⟩ := exists_derives_of_compile compiled
    have derives' : (tree.rename f).Derives (pattern.map f).toList := by
      rw [String.toList_map]
      exact derives.rename
    have renamed := tree.renamed_automaton_rename (f := f) pattern flags
    refine ⟨_, compile_of_derives derives', renamed.size_eq,
      tree.toFragment_automaton_rename pattern flags, fun id => ?_,
      tree.accepts_automaton_rename pattern flags⟩
    refine ⟨(renamed.state id).epsilons_eq, ?_⟩
    exact (renamed.state id).transitions_eq ((tree.normalForm_automaton pattern flags).plain id)
      (((tree.rename f).normalForm_automaton _ flags).plain id)

/-- A full stop trades places with the letter of an escape that other dialects have. -/
theorem compile_renamed_of_dot :
    let f : Renaming := .swap '.' 'r' (by decide) (by decide)
    "a.|\\r*".map f = "ar|\\.*" ∧
      ∃ automaton image, compile "a.|\\r*" .none = .ok automaton ∧
        compile ("a.|\\r*".map f) .none = .ok image ∧
        image.size = automaton.size ∧ image.toFragment = automaton.toFragment ∧
        (∀ id, image.epsilons id = automaton.epsilons id ∧
          (image.state id).transitions =
            (automaton.state id).transitions.map fun entry => (f entry.1, entry.2)) ∧
        ∀ text : String, image.accepts (text.map f) = automaton.accepts text := by
  intro f
  obtain ⟨automaton, compiled⟩ :=
    exists_compile (by decide : Brackets.fault? "a.|\\r*".toList = none) .none
  have renamed := compile_renamed f "a.|\\r*" .none
  rw [compiled] at renamed
  obtain ⟨image, compiled', same⟩ := renamed
  refine ⟨?_, automaton, image, compiled, compiled', same⟩
  rw [String.map_eq_internal]
  decide

end RegularPattern
