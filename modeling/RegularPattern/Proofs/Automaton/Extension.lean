import RegularPattern.Proofs.Automaton.Compile

/-!
# Patterns that go on

A parenthesis that closes nothing stays a fault at its place, whatever is written behind the
pattern. The other two faults say only that the pattern ends too early: a character for the pending
backslash and a parenthesis for each open group complete it.
-/

namespace RegularPattern

namespace Brackets

theorem ne_backslash {c : Char} {rest : List Char} (notLast : c = '\\' → rest = [] → False)
    (notEscape : ∀ d more, c = '\\' → rest = d :: more → False) : c ≠ '\\' := by
  rintro rfl
  cases rest with
  | nil => exact notLast rfl rfl
  | cons d more => exact notEscape d more rfl rfl

theorem scan_append_of_trailingInput {position place : Nat} {opened : List Nat}
    {input : List Char} (found : scan position opened input = some ⟨.trailingInput, place⟩)
    (more : List Char) :
    scan position opened (input ++ more) = some ⟨.trailingInput, place⟩ := by
  fun_induction scan position opened input with
  | case1 position opened => cases opened <;> simp at found
  | case2 position opened => simp at found
  | case3 position opened c rest ih => exact ih found
  | case4 position opened rest ih => exact ih found
  | case5 position rest => exact found
  | case6 position rest innermost outer ih => exact ih found
  | case7 position opened c rest notLast notEscape neOpen neClose ih =>
    rw [List.cons_append, scan_plain (ne_backslash notLast notEscape) neOpen neClose]
    exact ih found

/-- As many closing parentheses as there are open groups end the pattern well. -/
theorem scan_closing (position : Nat) (opened : List Nat) :
    scan position opened (List.replicate opened.length ')') = none := by
  induction opened generalizing position with
  | nil => rfl
  | cons innermost outer ih => exact ih (position + 1)

theorem exists_scan_append_eq_none {position : Nat} {opened : List Nat} {input : List Char}
    (closable : ∀ place, scan position opened input ≠ some ⟨.trailingInput, place⟩) :
    ∃ more, scan position opened (input ++ more) = none := by
  fun_induction scan position opened input with
  | case1 position opened => exact ⟨_, scan_closing position opened⟩
  | case2 position opened =>
    -- Any character does for the place behind the backslash.
    exact ⟨'\\' :: List.replicate opened.length ')', scan_closing (position + 2) opened⟩
  | case3 position opened c rest ih => exact ih closable
  | case4 position opened rest ih => exact ih closable
  | case5 position rest => exact absurd rfl (closable position)
  | case6 position rest innermost outer ih => exact ih closable
  | case7 position opened c rest notLast notEscape neOpen neClose ih =>
    obtain ⟨more, complete⟩ := ih closable
    refine ⟨more, ?_⟩
    rwa [List.cons_append, scan_plain (ne_backslash notLast notEscape) neOpen neClose]

end Brackets

/-- A pattern with input left over is refused at the same character however it goes on. Any other
pattern, be it accepted or not, can go on to one that compiles. -/
theorem compile_append_iff (pattern : String) (flags : Flags) :
    (∀ error, compile pattern flags = .error error → error.cause = .trailingInput →
      ∀ more : String,
        compile (pattern ++ more) flags = .error { error with pattern := pattern ++ more }) ∧
    ((∃ more : String, ∃ automaton, compile (pattern ++ more) flags = .ok automaton) ↔
      ∀ error, compile pattern flags = .error error → error.cause ≠ .trailingInput) := by
  have stays : ∀ error, compile pattern flags = .error error → error.cause = .trailingInput →
      ∀ more : String,
        compile (pattern ++ more) flags = .error { error with pattern := pattern ++ more } := by
    rintro ⟨⟨cause, place⟩, text⟩ refused rfl more
    obtain ⟨found, rfl⟩ := fault?_of_compile refused
    have found' : Brackets.fault? (text ++ more).toList =
        some ⟨.trailingInput, place⟩ := by
      rw [Brackets.fault?, String.toList_append]
      exact Brackets.scan_append_of_trailingInput found more.toList
    exact compile_of_fault? found'
  refine ⟨stays, ?_, fun closable => ?_⟩
  · rintro ⟨more, automaton, compiled⟩ error refused trailing
    rw [stays error refused trailing more] at compiled
    cases compiled
  · have open' : ∀ place,
        Brackets.fault? pattern.toList ≠ some ⟨.trailingInput, place⟩ :=
      fun place found => closable _ (compile_of_fault? found) rfl
    obtain ⟨more, complete⟩ := Brackets.exists_scan_append_eq_none open'
    refine ⟨.ofList more, exists_compile ?_ flags⟩
    rwa [Brackets.fault?, String.toList_append, String.toList_ofList]

/-- A stray parenthesis before an open group, and an open group with a pending backslash. -/
theorem compile_append_iff_of_groups :
    (compile "a)(" .none = .error ⟨⟨.trailingInput, 1⟩, "a)("⟩ ∧
      compile ("a)(" ++ "b)*\\") .none = .error ⟨⟨.trailingInput, 1⟩, "a)(" ++ "b)*\\"⟩) ∧
    (compile "(a|(\\" .none = .error ⟨⟨.danglingEscape, 4⟩, "(a|(\\"⟩ ∧
      ∃ more : String, ∃ automaton, compile ("(a|(\\" ++ more) .none = .ok automaton) := by
  have stray : compile "a)(" .none = .error ⟨⟨.trailingInput, 1⟩, "a)("⟩ :=
    compile_of_fault? (by decide : Brackets.fault? "a)(".toList = some ⟨.trailingInput, 1⟩)
  have pending : compile "(a|(\\" .none = .error ⟨⟨.danglingEscape, 4⟩, "(a|(\\"⟩ :=
    compile_of_fault? (by decide : Brackets.fault? "(a|(\\".toList = some ⟨.danglingEscape, 4⟩)
  refine ⟨⟨stray, (compile_append_iff "a)(" .none).1 _ stray rfl "b)*\\"⟩, pending, ?_⟩
  refine (compile_append_iff "(a|(\\" .none).2.mpr fun error refused => ?_
  rw [pending] at refused
  obtain rfl := Except.error.inj refused
  decide

end RegularPattern
