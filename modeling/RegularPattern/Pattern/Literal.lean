import RegularPattern.Regex

/-!
# Metacharacters that stand for themselves

Every text can be written as a pattern of its own, with a backslash before each metacharacter, and
bars between such patterns offer several texts. Symbols of quantifiers also stand for themselves
without a backslash, wherever there is nothing left that they could quantify.

## Main definitions

* `verbatim`, `anyOf` — the pattern of one text, and of several texts to choose from.
* `Regex.ofSymbols` — what symbols of quantifiers stand for by themselves.
-/

namespace RegularPattern

/-- The characters that do not always stand for themselves in a pattern. -/
def metacharacters : List Char :=
  ['*', '+', '?', '|', '(', ')', '\\']

/-- A character with a backslash before it if it is a metacharacter. -/
def escapeMeta (c : Char) : List Char :=
  if c ∈ metacharacters then ['\\', c] else [c]

/-- A text as a pattern. -/
def verbatim (text : String) : String :=
  .ofList (text.toList.flatMap escapeMeta)

/-- Texts to choose from, as a pattern. -/
def anyOf (texts : List String) : String :=
  "|".intercalate (texts.map verbatim)

/-- What symbols of quantifiers stand for where the first of them has nothing to quantify: each two
are a literal and its quantifier, and a last one by itself is a literal. -/
def Regex.ofSymbols : List Quantifier → Regex
  | [] => empty
  | [last] => literal last.symbol
  | first :: q :: rest => concat (quantified q (literal first.symbol)) (ofSymbols rest)

end RegularPattern
