import RegularPattern.Proofs.Automaton.Composition
import RegularPattern.Proofs.Pattern.Literal

/-!
# Texts and symbols taken literally

The automaton of a text written as a pattern accepts that text alone, and that of several such texts
with bars between them accepts each of these and no other. A run of quantifier symbols behind a
group quantifies the group once; the rest of the run is read two by two, as a literal and its
quantifier.
-/

namespace RegularPattern

/-- Texts written as patterns, with bars between them, accept exactly these texts. -/
theorem compile_anyOf {texts : List String} (ne : texts ≠ []) (flags : Flags) :
    ∃ automaton, compile (anyOf texts) flags = .ok automaton ∧
      ∀ text, automaton.accepts text = true ↔ text ∈ texts := by
  obtain ⟨first, more, rfl⟩ := List.exists_cons_of_ne_nil ne
  refine ⟨_, compile_of_derives (Tree.derives_anyOf first more), fun text => ?_⟩
  rw [Tree.accepts_automaton_iff, Tree.mem_language_anyOf_iff, ← List.map_cons,
    List.mem_map_of_injective (fun _ _ => String.toList_inj.mp)]

theorem compile_anyOf_of_metacharacters :
    ["a*", "", "\\n|", "?\n", "("] ≠ [] ∧
      ∃ automaton, compile "a\\*||\\\\n\\||\\?\n|\\(" .none = .ok automaton ∧
        ∀ text, automaton.accepts text = true ↔ text ∈ ["a*", "", "\\n|", "?\n", "("] := by
  have pattern : anyOf ["a*", "", "\\n|", "?\n", "("] = "a\\*||\\\\n\\||\\?\n|\\(" := by decide
  have ne : ["a*", "", "\\n|", "?\n", "("] ≠ [] := by decide
  exact ⟨ne, pattern ▸ compile_anyOf ne .none⟩

/-- Behind a group, the first symbol of a run of quantifiers quantifies the group. Of the others
each two are a literal with its quantifier, and a last one by itself is a literal. -/
theorem compile_quantifier_run {pattern : String} {flags : Flags} {automaton : Automaton}
    (compiled : compile pattern flags = .ok automaton) (q : Quantifier) (more : List Quantifier) :
    ∃ longer, compile ("(" ++ pattern ++ ")" ++
        String.ofList ((q :: more).map Quantifier.symbol)) flags = .ok longer ∧
      ∀ text, longer.accepts text = true ↔ ∃ first rest : String, text = first ++ rest ∧
        (∃ pieces : List String, q.Allows pieces.length ∧ first = String.join pieces ∧
          ∀ piece ∈ pieces, automaton.accepts piece = true) ∧
        (Regex.ofSymbols more).Language rest.toList := by
  obtain ⟨inner, derives, rfl⟩ := exists_derives_of_compile compiled
  have whole := derives.groupRun q more
  refine ⟨(inner.groupRun q more).automaton _ _, compile_of_derives ?_, fun text => ?_⟩
  · simpa using whole
  · simp only [Tree.accepts_automaton_iff, Tree.language_groupRun, toList_mem_mul_iff,
      Quantifier.toList_mem_language_iff, Tree.mem_prod_symbols_iff]

theorem compile_quantifier_run_of_alternatives :
    ∃ automaton, compile "ab|*" .none = .ok automaton ∧
      ∃ longer, compile "(ab|*)+?*+" .none = .ok longer ∧
        ∀ text, longer.accepts text = true ↔ ∃ first rest : String, text = first ++ rest ∧
          (∃ pieces : List String, Quantifier.oneOrMore.Allows pieces.length ∧
            first = String.join pieces ∧ ∀ piece ∈ pieces, automaton.accepts piece = true) ∧
          (Regex.concat (.quantified .zeroOrMore (.literal '?')) (.literal '+')).Language
            rest.toList := by
  obtain ⟨automaton, compiled⟩ :=
    exists_compile (by decide : Brackets.fault? "ab|*".toList = none) .none
  exact ⟨automaton, compiled,
    compile_quantifier_run compiled .oneOrMore [.zeroOrOne, .zeroOrMore, .oneOrMore]⟩

end RegularPattern
