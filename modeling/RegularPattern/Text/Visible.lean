import RegularPattern.Text.Hidden

/-!
# Characters with a visible form of their own

A character is visible unless it is in one of the hidden ranges. What is proved about escaped texts
holds for any choice of the visible characters; this one is that of the program.

## Main definitions

* `Text.isVisible` — whether a character shows by itself.
-/

namespace RegularPattern.Text

/-- Whether a character shows by itself. -/
def isVisible (c : Char) : Bool :=
  !hidden.any fun range => range.1 ≤ c.toNat && c.toNat ≤ range.2

/-- Of the white space of ASCII, the blank alone is visible. -/
theorem isVisible_eq_false_of_isWhitespace {c : Char} (space : c.isWhitespace = true)
    (ne : c ≠ ' ') : isVisible c = false := by
  simp only [Char.isWhitespace, Bool.or_eq_true, decide_eq_true_eq] at space
  rcases space with ((rfl | rfl) | rfl) | rfl
  · exact absurd rfl ne
  all_goals decide

end RegularPattern.Text
