import RegularPattern.Proofs.Automaton.Compile
import RegularPattern.Proofs.Text.Lines
import RegularPattern.Text.Unescape

/-!
# Messages about patterns

A message names the code and the reason of a cause and the position of the fault, shows the pattern
as it is, and puts a mark as far to the right as the position says. If the pattern is a single line,
the mark stands under the character at fault.
-/

namespace RegularPattern

theorem toList_pushn (c : Char) (n : Nat) (text : String) :
    (text.pushn c n).toList = text.toList ++ List.replicate n c := by
  rw [String.pushn_eq_repeat_push]
  induction n with
  | zero => simp [Nat.repeat]
  | succ n ih => rw [Nat.repeat, String.toList_push, ih, List.append_assoc, List.replicate_succ']

namespace PatternError

/-- The text of a message. -/
theorem message_eq (error : PatternError) (colouring : Colouring) :
    let wording : String × String := match error.cause with
      | .unmatchedParenthesis => ("001", "unmatched parenthesis")
      | .trailingInput => ("002", "unexpected trailing input")
      | .danglingEscape => ("003", "dangling escape at end of pattern")
    let painted (style text : String) : String := match colouring with
      | .plain => text
      | .ansi => "\x1b[" ++ style ++ "m" ++ text ++ "\x1b[0m"
    error.message colouring =
      painted "1;31" ("[" ++ wording.1 ++ "]") ++ " " ++ wording.2 ++ " at position "
        ++ toString error.position ++ ":\n | " ++ error.pattern ++ "\n | "
        ++ String.ofList (List.replicate error.position ' ') ++ painted "32" "^" := by
  have blanks : "".pushn ' ' error.position =
      String.ofList (List.replicate error.position ' ') := by
    simp [← String.toList_inj, toList_pushn]
  intro wording painted
  rw [message, blanks]
  cases colouring <;> cases same : error.cause <;>
    simp [wording, painted, same, Cause.code, Cause.reason, Colouring.boldRed, Colouring.green]

end PatternError

/-- The message about a pattern of a single line has three lines. The character under which the mark
stands is the one that the cause names. -/
theorem cut_message_of_compile {pattern : String} {flags : Flags} {error : PatternError}
    (single : '\n' ∉ pattern.toList) (refused : compile pattern flags = .error error) :
    ∃ heading, Text.cut '\n' (error.message .plain).toList =
        [heading, " | ".toList ++ pattern.toList,
          " | ".toList ++ List.replicate error.position ' ' ++ ['^']] ∧
      pattern.toList[error.position]? = some error.cause.character := by
  obtain ⟨found, same⟩ := fault?_of_compile refused
  let heading := ("[" ++ error.cause.code ++ "] " ++ error.cause.reason ++ " at position ").toList
    ++ Nat.toDigits 10 error.position ++ [':']
  have text : (error.message .plain).toList =
      heading ++ '\n' :: ((" | ".toList ++ pattern.toList) ++
        '\n' :: (" | ".toList ++ List.replicate error.position ' ' ++ ['^'])) := by
    simp [PatternError.message, heading, Colouring.boldRed, Colouring.green, toList_pushn, same,
      Nat.toString_eq_repr, Nat.toList_repr]
  have free : '\n' ∉ heading := by
    have wording : '\n' ∉ ("[" ++ error.cause.code ++ "] " ++ error.cause.reason
        ++ " at position ").toList := by
      cases error.cause <;> decide
    simp only [heading, List.mem_append, not_or]
    exact ⟨⟨wording, Text.newline_not_mem_toDigits (by decide) (by decide) _⟩, by decide⟩
  refine ⟨heading, ?_, (Brackets.located_of_fault? found).character⟩
  rw [text, Text.cut_line free, Text.cut_line (by simpa using single), Text.cut_of_not_mem (by simp)]

end RegularPattern
