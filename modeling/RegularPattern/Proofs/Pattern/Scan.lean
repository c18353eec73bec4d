import RegularPattern.Pattern.Brackets
import RegularPattern.Pattern.Tree

/-!
# The scan of the brackets

Over the text of a derivation the scan moves on and leaves the open parentheses as they are. Where
it finds a fault, the character of the fault stands there.

## Main definitions

* `Fault.Located` — the fault stands at the character that its cause names.
-/

namespace RegularPattern

/-- The character at which a pattern is faulty. -/
def Cause.character : Cause → Char
  | unmatchedParenthesis => '('
  | trailingInput => ')'
  | danglingEscape => '\\'

/-- The fault stands at the character of its cause; a dangling backslash is the last character. -/
structure Fault.Located (fault : Fault) (pattern : List Char) : Prop where
  character : pattern[fault.position]? = some fault.cause.character
  last : fault.cause = .danglingEscape → fault.position + 1 = pattern.length

theorem Fault.Located.lt {fault : Fault} {pattern : List Char} (located : fault.Located pattern) :
    fault.position < pattern.length :=
  (List.getElem?_eq_some_iff.mp located.character).1

namespace Brackets

theorem scan_plain {c : Char} (neEscape : c ≠ '\\') (neOpen : c ≠ '(') (neClose : c ≠ ')')
    (position : Nat) (opened : List Nat) (rest : List Char) :
    scan position opened (c :: rest) = scan (position + 1) opened rest := by
  rw [scan] <;> simp_all

/-- The scan goes over a derivation. -/
theorem scan_text {rule : Rule} (tree : Tree rule) (valid : tree.Valid) (position : Nat)
    (opened : List Nat) (rest : List Char) :
    scan position opened (tree.text ++ rest) =
      scan (position + tree.text.length) opened rest := by
  induction tree generalizing position opened rest with
  | plain c => exact scan_plain valid.1 valid.2.1 valid.2.2.1 position opened rest
  | escaped c => rfl
  | group inner ih =>
    simp only [Tree.text, List.cons_append, List.append_assoc, List.nil_append, scan,
      ih valid (position + 1) (position :: opened)]
    congr 1
    simp
    omega
  | bare atom ih => exact ih valid position opened rest
  | quantified atom q ih =>
    have symbol : scan (position + atom.text.length) opened (q.symbol :: rest) =
        scan (position + atom.text.length + 1) opened rest := by
      cases q <;> rfl
    simp only [Tree.text, List.append_assoc, List.singleton_append, ih valid, symbol]
    simp [Nat.add_assoc]
  | nothing => rfl
  | append init last ihInit ihLast =>
    simp only [Tree.text, List.append_assoc, ihInit valid.1, ihLast valid.2.1, List.length_append,
      Nat.add_assoc]
  | single term ih => exact ih valid position opened rest
  | bar init last ihInit ihLast =>
    have bar (here : Nat) : scan here opened ('|' :: (last.text ++ rest)) =
        scan (here + 1) opened (last.text ++ rest) := rfl
    simp only [Tree.text, List.append_assoc, List.cons_append, ihInit valid.1, bar,
      ihLast valid.2]
    congr 1
    simp
    omega

theorem getElem?_of_drop {pattern rest : List Char} {position : Nat} {c : Char}
    (left : pattern.drop position = c :: rest) :
    pattern[position]? = some c ∧ pattern.drop (position + 1) = rest := by
  have head : (pattern.drop position)[0]? = some c := by rw [left]; rfl
  have tail : (pattern.drop position).tail = rest := by rw [left]; rfl
  rw [List.getElem?_drop] at head
  rw [List.tail_drop] at tail
  exact ⟨head, tail⟩

/-- The invariant of the scan: it knows what is left of the pattern, and at each position that it
keeps stands a parenthesis. -/
theorem located_of_scan {pattern input : List Char} {position : Nat} {opened : List Nat}
    {fault : Fault} (left : pattern.drop position = input)
    (parentheses : ∀ parenthesis ∈ opened, pattern[parenthesis]? = some '(')
    (found : scan position opened input = some fault) : fault.Located pattern := by
  fun_induction scan position opened input with
  | case1 position opened =>
    obtain ⟨innermost, first, rfl⟩ := Option.map_eq_some_iff.mp found
    exact ⟨parentheses innermost (List.mem_of_head? first), nofun⟩
  | case2 position opened =>
    obtain rfl := Option.some.inj found
    obtain ⟨here, rest⟩ := getElem?_of_drop left
    have lt := (List.getElem?_eq_some_iff.mp here).1
    have le := List.drop_eq_nil_iff.mp rest
    exact ⟨here, fun _ => Nat.le_antisymm lt le⟩
  | case3 position opened escaped rest ih =>
    have next := (getElem?_of_drop left).2
    exact ih (getElem?_of_drop next).2 parentheses found
  | case4 position opened rest ih =>
    obtain ⟨here, next⟩ := getElem?_of_drop left
    exact ih next (List.forall_mem_cons.mpr ⟨here, parentheses⟩) found
  | case5 position rest =>
    obtain rfl := Option.some.inj found
    exact ⟨(getElem?_of_drop left).1, nofun⟩
  | case6 position rest innermost outer ih =>
    exact ih (getElem?_of_drop left).2 (List.forall_mem_cons.mp parentheses).2 found
  | case7 position opened c rest _ _ _ _ ih =>
    exact ih (getElem?_of_drop left).2 parentheses found

/-- The fault of a pattern stands in the pattern, at the character of its cause. -/
theorem located_of_fault? {pattern : List Char} {fault : Fault}
    (found : fault? pattern = some fault) : fault.Located pattern :=
  located_of_scan rfl (by simp) found

end Brackets

end RegularPattern
