/-!
# Regular expressions and their languages

The expressions that patterns stand for, and the set of words that each of them denotes. The
language is defined on the expression alone, by recursion, without any machine.

## Main definitions

* `Quantifier` — the three ways to repeat an operand, with the symbol that writes each.
* `Regex` — expressions over characters.
* `Regex.Language` — the words that an expression denotes.
-/

namespace RegularPattern

/-- How often the operand of a quantifier may occur. -/
inductive Quantifier where
  | zeroOrMore
  | oneOrMore
  | zeroOrOne
  deriving DecidableEq

namespace Quantifier

/-- The character that writes a quantifier. -/
def symbol : Quantifier → Char
  | zeroOrMore => '*'
  | oneOrMore => '+'
  | zeroOrOne => '?'

/-- The quantifier that a character writes, if it writes one. -/
def ofSymbol? : Char → Option Quantifier
  | '*' => some zeroOrMore
  | '+' => some oneOrMore
  | '?' => some zeroOrOne
  | _ => none

@[simp] theorem ofSymbol?_symbol (q : Quantifier) : ofSymbol? q.symbol = some q := by
  cases q <;> rfl

theorem ofSymbol?_eq_some_iff {c : Char} {q : Quantifier} :
    ofSymbol? c = some q ↔ c = q.symbol := by
  constructor
  · intro h
    unfold ofSymbol? at h
    split at h <;> simp_all [symbol]
    all_goals subst h; rfl
  · rintro rfl
    exact ofSymbol?_symbol q

/-- Whether a quantifier admits `n` occurrences of its operand. -/
def Allows : Quantifier → Nat → Prop
  | zeroOrMore, _ => True
  | oneOrMore, n => 1 ≤ n
  | zeroOrOne, n => n ≤ 1

instance (q : Quantifier) (n : Nat) : Decidable (q.Allows n) := by
  cases q <;> unfold Allows <;> infer_instance

end Quantifier

/-- Regular expressions over characters. -/
inductive Regex where
  /-- The empty word. -/
  | empty
  | literal (c : Char)
  | concat (first second : Regex)
  | alternation (left right : Regex)
  | quantified (q : Quantifier) (operand : Regex)
  deriving DecidableEq

namespace Regex

/-- The words that an expression denotes. A quantified expression denotes the concatenations of
as many words of its operand as the quantifier admits. -/
def Language : Regex → List Char → Prop
  | empty, word => word = []
  | literal c, word => word = [c]
  | concat first second, word => ∃ u v, word = u ++ v ∧ first.Language u ∧ second.Language v
  | alternation left right, word => left.Language word ∨ right.Language word
  | quantified q operand, word =>
    ∃ pieces : List (List Char),
      q.Allows pieces.length ∧ word = pieces.flatten ∧ ∀ piece ∈ pieces, operand.Language piece

end Regex

end RegularPattern
