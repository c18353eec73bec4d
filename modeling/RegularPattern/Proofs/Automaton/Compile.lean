import RegularPattern.Automaton.Basic
import RegularPattern.Proofs.Pattern.Reading

/-!
# When a pattern compiles, and to what

A pattern compiles exactly if it has a derivation. Then the automaton is what Thompson's
construction makes of that derivation; otherwise the fault is the one that the scan of the brackets
finds.

## Main definitions

* `Tree.automaton` — the automaton of a derivation.
-/

namespace RegularPattern

/-- The automaton that Thompson's construction makes of a derivation, in an empty graph. -/
def Tree.automaton (tree : Tree .expression) (pattern : String) (flags : Flags) : Automaton :=
  let built := tree.build (thompson Graph.store) {}
  { built.2, built.1 with pattern, flags }

variable {pattern : String} {flags : Flags}

theorem compile_of_derives {tree : Tree .expression} (derives : tree.Derives pattern.toList) :
    compile pattern flags = .ok (tree.automaton pattern flags) := by
  rw [compile, derives.read_eq]
  rfl

theorem compile_of_fault? {fault : Fault}
    (found : Brackets.fault? pattern.toList = some fault) :
    compile pattern flags = .error { fault with pattern } := by
  have refused := (thompson Graph.store).read_of_fault? found {}
  unfold compile
  split
  · next same =>
    rw [same] at refused
    rw [Except.error.inj refused]
  · next same =>
    rw [same] at refused
    cases refused

theorem exists_derives_of_compile {automaton : Automaton}
    (compiled : compile pattern flags = .ok automaton) :
    ∃ tree : Tree .expression, tree.Derives pattern.toList ∧
      automaton = tree.automaton pattern flags := by
  cases found : Brackets.fault? pattern.toList with
  | none =>
    obtain ⟨tree, derives⟩ := exists_derives_iff.mpr found
    rw [compile_of_derives derives] at compiled
    exact ⟨tree, derives, (Except.ok.inj compiled).symm⟩
  | some fault =>
    rw [compile_of_fault? found] at compiled
    cases compiled

theorem exists_compile (faultless : Brackets.fault? pattern.toList = none) (flags : Flags) :
    ∃ automaton, compile pattern flags = .ok automaton := by
  obtain ⟨tree, derives⟩ := exists_derives_iff.mpr faultless
  exact ⟨tree.automaton pattern flags, compile_of_derives derives⟩

theorem fault?_of_compile {error : PatternError}
    (refused : compile pattern flags = .error error) :
    Brackets.fault? pattern.toList = some error.toFault ∧ error.pattern = pattern := by
  cases found : Brackets.fault? pattern.toList with
  | none =>
    obtain ⟨automaton, compiled⟩ := exists_compile found flags
    rw [compiled] at refused
    cases refused
  | some fault =>
    rw [compile_of_fault? found] at refused
    obtain rfl := Except.error.inj refused
    exact ⟨rfl, rfl⟩

/-- Flags are only recorded. -/
theorem compile_flags (pattern : String) (flags : Flags) :
    compile pattern flags =
      (compile pattern .none).map fun automaton => { automaton with flags } := by
  unfold compile
  split <;> rfl

/-- A pattern compiles exactly if it has a derivation. The derivation is then the only one, and
states and edges are those of its construction, in their order. -/
theorem compile_eq_ok_iff_construction (pattern : String) (flags : Flags) :
    ((∃ automaton, compile pattern flags = .ok automaton) ↔
      ∃ tree : Tree .expression, tree.Derives pattern.toList) ∧
    ∀ automaton : Automaton, compile pattern flags = .ok automaton ↔
      ∃ tree : Tree .expression, (∀ other, other.Derives pattern.toList ↔ other = tree) ∧
        automaton.toGraph = (tree.build (thompson Graph.store) {}).2 ∧
        automaton.toFragment = (tree.build (thompson Graph.store) {}).1 ∧
        automaton.pattern = pattern ∧ automaton.flags = flags := by
  refine ⟨⟨?_, ?_⟩, fun automaton => ⟨?_, ?_⟩⟩
  · rintro ⟨automaton, compiled⟩
    obtain ⟨tree, derives, -⟩ := exists_derives_of_compile compiled
    exact ⟨tree, derives⟩
  · rintro ⟨tree, derives⟩
    exact ⟨tree.automaton pattern flags, compile_of_derives derives⟩
  · intro compiled
    obtain ⟨tree, derives, rfl⟩ := exists_derives_of_compile compiled
    exact ⟨tree, derives.iff_eq, rfl, rfl, rfl, rfl⟩
  · rintro ⟨tree, unique, graph, fragment, rfl, rfl⟩
    have derives : tree.Derives automaton.pattern.toList := (unique tree).mpr rfl
    rw [compile_of_derives derives, Tree.automaton, ← graph, ← fragment]

/-- A pattern compiles exactly if the scan of its brackets finds no fault. Otherwise the fault of
the scan is reported with the whole pattern, and it stands at a character of the pattern that its
cause names. -/
theorem compile_agrees_with_scan (pattern : String) (flags : Flags) :
    match Brackets.fault? pattern.toList with
    | none => ∃ automaton, compile pattern flags = .ok automaton
    | some fault =>
      compile pattern flags = .error { fault with pattern } ∧
        fault.position < pattern.length ∧ fault.Located pattern.toList := by
  split
  · next faultless =>
    obtain ⟨tree, derives⟩ := exists_derives_iff.mpr faultless
    exact ⟨tree.automaton pattern flags, compile_of_derives derives⟩
  · next fault found =>
    have located := Brackets.located_of_fault? found
    have lt := located.lt
    rw [String.length_toList] at lt
    exact ⟨compile_of_fault? found, lt, located⟩

end RegularPattern
