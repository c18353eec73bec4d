import RegularPattern.Pattern.Error

/-!
# Brackets of patterns

A scan that looks at nothing but backslashes and parentheses: it keeps the positions of the open
parentheses, the innermost first, and finds the first fault of a pattern from them.

## Main definitions

* `Brackets.scan` — the fault of the rest of a pattern, if it has one.
* `Brackets.fault?` — the fault of a pattern.
-/

namespace RegularPattern.Brackets

/-- Scans the rest of a pattern from `position` on, with the given parentheses open. -/
def scan (position : Nat) (opened : List Nat) : List Char → Option Fault
  | [] => opened.head?.map fun innermost => ⟨.unmatchedParenthesis, innermost⟩
  | '\\' :: [] => some ⟨.danglingEscape, position⟩
  | '\\' :: _ :: rest => scan (position + 2) opened rest
  | '(' :: rest => scan (position + 1) (position :: opened) rest
  | ')' :: rest =>
    match opened with
    | [] => some ⟨.trailingInput, position⟩
    | _ :: outer => scan (position + 1) outer rest
  | _ :: rest => scan (position + 1) opened rest

/-- The fault of a pattern, if it has one. -/
def fault? (pattern : List Char) : Option Fault :=
  scan 0 [] pattern

end RegularPattern.Brackets
