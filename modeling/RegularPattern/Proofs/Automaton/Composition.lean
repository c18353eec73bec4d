import RegularPattern.Proofs.Automaton.Language
import RegularPattern.Proofs.Graph.Size
import RegularPattern.Proofs.Pattern.Composition

/-!
# Patterns made of patterns

A pattern means the same wherever it stands. In parentheses it compiles to the same automaton; with
a bar between them, behind one another or quantified, patterns accept the texts that their parts
make up, and their states add up.
-/

namespace RegularPattern

namespace Tree

theorem accepts_automaton_iff (tree : Tree .expression) (pattern : String) (flags : Flags)
    (text : String) :
    (tree.automaton pattern flags).accepts text = true ↔ text.toList ∈ tree.language := by
  rw [Automaton.accepts_iff_path (tree.wellFormed_automaton pattern flags),
    tree.path_automaton_iff]

theorem size_automaton (tree : Tree .expression) (pattern : String) (flags : Flags) :
    (tree.automaton pattern flags).size = 2 * tree.wirings := by
  have size := Graph.size_build tree {}
  rwa [show ({} : Graph).size = 0 from rfl, Nat.zero_add] at size

theorem wirings_orElse (tree : Tree .expression) : (other : Tree .expression) →
    (tree.orElse other).wirings = tree.wirings + other.wirings + 1
  | single _ => by rw [orElse, wirings, wirings]
  | bar init last => by
    rw [orElse, wirings, wirings_orElse tree init, wirings]
    ring

/-! ## Words of compositions as texts -/

theorem mem_language_orElse_iff (tree other : Tree .expression) (text : String) :
    text.toList ∈ (tree.orElse other).language ↔
      text.toList ∈ tree.language ∨ text.toList ∈ other.language := by
  rw [language_orElse, Language.mem_add]

theorem mem_language_ofFactors_iff (first second : Tree .factor) (text : String) :
    text.toList ∈ (ofFactors first second).language ↔
      ∃ u v : String, text = u ++ v ∧ u.toList ∈ first.language ∧ v.toList ∈ second.language := by
  rw [language_ofFactors, toList_mem_mul_iff]

theorem mem_language_quantified_iff (atom : Tree .atom) (q : Quantifier) (text : String) :
    text.toList ∈ (ofFactor (quantified atom q)).language ↔
      ∃ pieces : List String, q.Allows pieces.length ∧ text = String.join pieces ∧
        ∀ piece ∈ pieces, piece.toList ∈ atom.language := by
  rw [language_ofFactor, language, Quantifier.toList_mem_language_iff]

end Tree

/-- Whatever patterns are put together, the automaton of the whole accepts the texts that the parts
make up: either's for a bar, one behind the other for groups, and as many as the quantifier allows
for a quantified group. A group by itself compiles to the automaton of what it encloses, and the
numbers of states add up. -/
theorem compile_compose {p q : String} {flags : Flags} {P Q : Automaton}
    (compiledP : compile p flags = .ok P) (compiledQ : compile q flags = .ok Q) :
    (∃ group, compile ("(" ++ p ++ ")") flags = .ok group ∧
      group.toGraph = P.toGraph ∧ group.toFragment = P.toFragment) ∧
    (∃ either, compile (p ++ "|" ++ q) flags = .ok either ∧
      either.size = P.size + Q.size + 2 ∧
      ∀ text, either.accepts text = true ↔ P.accepts text = true ∨ Q.accepts text = true) ∧
    (∃ both, compile ("(" ++ p ++ ")(" ++ q ++ ")") flags = .ok both ∧
      both.size = P.size + Q.size ∧
      ∀ text, both.accepts text = true ↔
        ∃ u v, text = u ++ v ∧ P.accepts u = true ∧ Q.accepts v = true) ∧
    ∀ quantifier : Quantifier, ∃ repeated,
      compile ("(" ++ p ++ ")" ++ String.singleton quantifier.symbol) flags = .ok repeated ∧
      repeated.size = P.size + 2 ∧
      ∀ text, repeated.accepts text = true ↔ ∃ pieces : List String,
        quantifier.Allows pieces.length ∧ text = String.join pieces ∧
          ∀ piece ∈ pieces, P.accepts piece = true := by
  obtain ⟨tree, derives, rfl⟩ := exists_derives_of_compile compiledP
  obtain ⟨other, derives', rfl⟩ := exists_derives_of_compile compiledQ
  simp only [Tree.accepts_automaton_iff, Tree.size_automaton]
  refine ⟨?group, ?bar, ?groups, fun quantifier => ?quantified⟩
  case group =>
    have whole := derives.enclosed
    refine ⟨(Tree.ofFactor (.bare (.group tree))).automaton _ _, compile_of_derives ?_, rfl, rfl⟩
    simpa using whole
  case bar =>
    have whole := derives.orElse derives'
    refine ⟨(tree.orElse other).automaton _ _, compile_of_derives ?_, ?_, fun text => ?_⟩
    · simpa using whole
    · rw [Tree.size_automaton, Tree.wirings_orElse]
      ring
    · rw [Tree.accepts_automaton_iff, Tree.mem_language_orElse_iff]
  case groups =>
    have whole := derives.enclosed_enclosed derives'
    refine ⟨(Tree.ofFactors (.bare (.group tree)) (.bare (.group other))).automaton _ _,
      compile_of_derives ?_, ?_, fun text => ?_⟩
    · simpa using whole
    · rw [Tree.size_automaton, ← Nat.mul_add]
      rfl
    · rw [Tree.accepts_automaton_iff, Tree.mem_language_ofFactors_iff]
      rfl
  case quantified =>
    have whole := derives.enclosed_quantified quantifier
    refine ⟨(Tree.ofFactor (.quantified (.group tree) quantifier)).automaton _ _,
      compile_of_derives ?_, ?_, fun text => ?_⟩
    · simpa using whole
    · rw [Tree.size_automaton]
      rfl
    · rw [Tree.accepts_automaton_iff, Tree.mem_language_quantified_iff]
      rfl

/-- Alternatives and a bar of its own on either side, and a parenthesis that is escaped. -/
theorem compile_compose_of_alternatives :
    ∃ P Q, compile "a|b*" .none = .ok P ∧ compile "\\)+|" .none = .ok Q ∧
      (∃ group, compile ("(" ++ "a|b*" ++ ")") .none = .ok group ∧
        group.toGraph = P.toGraph ∧ group.toFragment = P.toFragment) ∧
      (∃ either, compile ("a|b*" ++ "|" ++ "\\)+|") .none = .ok either ∧
        either.size = P.size + Q.size + 2 ∧
        ∀ text, either.accepts text = true ↔ P.accepts text = true ∨ Q.accepts text = true) ∧
      (∃ both, compile ("(" ++ "a|b*" ++ ")(" ++ "\\)+|" ++ ")") .none = .ok both ∧
        both.size = P.size + Q.size ∧
        ∀ text, both.accepts text = true ↔
          ∃ u v, text = u ++ v ∧ P.accepts u = true ∧ Q.accepts v = true) ∧
      ∀ quantifier : Quantifier, ∃ repeated,
        compile ("(" ++ "a|b*" ++ ")" ++ String.singleton quantifier.symbol) .none = .ok repeated ∧
        repeated.size = P.size + 2 ∧
        ∀ text, repeated.accepts text = true ↔ ∃ pieces : List String,
          quantifier.Allows pieces.length ∧ text = String.join pieces ∧
            ∀ piece ∈ pieces, P.accepts piece = true := by
  obtain ⟨P, compiledP⟩ := exists_compile (by decide : Brackets.fault? "a|b*".toList = none) .none
  obtain ⟨Q, compiledQ⟩ :=
    exists_compile (by decide : Brackets.fault? "\\)+|".toList = none) .none
  exact ⟨P, Q, compiledP, compiledQ, compile_compose compiledP compiledQ⟩

end RegularPattern
