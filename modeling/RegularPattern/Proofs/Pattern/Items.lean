import RegularPattern.Proofs.Pattern.Derivation

/-!
# What a pattern is made of

The operations that a derivation stands for, but for concatenations, and how many there can be in a
pattern of a given length. A factor takes more characters than it gives operations; an empty term
takes none, so it is paid for by the bar or the parentheses beside it. Nothing but bars is therefore
the pattern with the most operations.

## Main definitions

* `Item`, `Tree.items` — the operations of a derivation, operands first.
* `Tree.Bounded` — how many operations the text of a derivation has room for.
-/

namespace RegularPattern

/-- An operation that is not a concatenation. -/
inductive Item where
  | literal
  | emptyTerm
  | quantifier
  | bar
  deriving DecidableEq

namespace Tree

/-- The operations of a derivation. A term is empty only if it has no factors. -/
def items : {rule : Rule} → Tree rule → List Item
  | _, plain _ => [.literal]
  | _, escaped _ => [.literal]
  | _, group inner => inner.items
  | _, bare atom => atom.items
  | _, quantified atom _ => atom.items ++ [.quantifier]
  | _, nothing => [.emptyTerm]
  | _, append nothing last => last.items
  | _, append (append init middle) last => (append init middle).items ++ last.items
  | _, single term => term.items
  | _, bar init last => init.items ++ last.items ++ [.bar]

theorem length_items_append_le (init : Tree .term) (last : Tree .factor) :
    (append init last).items.length ≤ init.items.length + last.items.length := by
  cases init <;> simp [items]

/-- A factor has fewer than two operations for each of its characters; an expression may have one
more, and it has so many only if it is made of bars. -/
def Bounded : {rule : Rule} → Tree rule → Prop
  | .atom, tree | .factor, tree =>
    tree.items.length + 1 ≤ 2 * tree.text.length ∧ ∃ c ∈ tree.text, c ≠ '|'
  | .term, tree | .expression, tree =>
    tree.items.length ≤ 2 * tree.text.length + 1 ∧
      (tree.items.length = 2 * tree.text.length + 1 ↔ ∀ c ∈ tree.text, c = '|')

theorem Valid.bounded {rule : Rule} {tree : Tree rule} (valid : tree.Valid) : tree.Bounded := by
  induction tree with
  | plain c => exact ⟨Nat.le_refl _, c, List.mem_singleton_self c, valid.2.2.2⟩
  | escaped c => exact ⟨by simp [items, text], '\\', List.mem_cons_self, by decide⟩
  | group inner ih =>
    obtain ⟨le, -⟩ := ih valid
    refine ⟨?_, '(', List.mem_cons_self, by decide⟩
    simp [items, text]
    omega
  | bare atom ih => exact ih valid
  | quantified atom q ih =>
    obtain ⟨le, c, mem, ne⟩ := ih valid
    refine ⟨?_, c, List.mem_append_left _ mem, ne⟩
    simp [items, text]
    omega
  | nothing => exact ⟨Nat.le_refl _, by simp [items, text]⟩
  | append init last ihInit ihLast =>
    obtain ⟨leInit, -⟩ := ihInit valid.1
    obtain ⟨leLast, c, mem, ne⟩ := ihLast valid.2.1
    have le := length_items_append_le init last
    have more : (append init last).items.length < 2 * (append init last).text.length + 1 := by
      simp [text]
      omega
    refine ⟨Nat.le_of_lt more, iff_of_false (Nat.ne_of_lt more) fun bars => ne (bars c ?_)⟩
    exact List.mem_append_right _ mem
  | single term ih => exact ih valid
  | bar init last ihInit ihLast =>
    obtain ⟨leInit, eqInit⟩ := ihInit valid.1
    obtain ⟨leLast, eqLast⟩ := ihLast valid.2
    have length : (bar init last).items.length = init.items.length + last.items.length + 1 := by
      simp [items, Nat.add_assoc]
    have length' : (bar init last).text.length = init.text.length + last.text.length + 1 := by
      simp [text, Nat.add_assoc]
    have bars : (∀ c ∈ (bar init last).text, c = '|') ↔
        (∀ c ∈ init.text, c = '|') ∧ ∀ c ∈ last.text, c = '|' := by
      simp [text, or_imp, forall_and]
    rw [Bounded, length, length', bars, ← eqInit, ← eqLast]
    omega

end Tree

theorem length_eq_counts (items : List Item) :
    items.length = items.count .literal + items.count .emptyTerm + items.count .quantifier
      + items.count .bar := by
  induction items with
  | nil => rfl
  | cons item items ih => cases item <;> simp [ih] <;> omega

end RegularPattern
