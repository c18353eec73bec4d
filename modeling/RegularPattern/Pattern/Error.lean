/-!
# Why a pattern cannot be read

A pattern is refused for one of three causes, each at one character of the pattern. The message
shown to a user names cause and position, and repeats the pattern with a mark below it.

## Main definitions

* `Cause`, `Fault` — what is wrong, and at which character index.
* `PatternError` — a fault together with the whole pattern.
* `PatternError.message` — the text for a user, plain or coloured.
-/

namespace RegularPattern

/-- What can be wrong with a pattern. -/
inductive Cause where
  /-- A group is never closed. -/
  | unmatchedParenthesis
  /-- Characters remain after the outermost expression. -/
  | trailingInput
  /-- The pattern ends right after a backslash. -/
  | danglingEscape
  deriving DecidableEq

namespace Cause

def name : Cause → String
  | unmatchedParenthesis => "UnmatchedParenthesis"
  | trailingInput => "TrailingInput"
  | danglingEscape => "DanglingEscape"

/-- The number of a cause, in three digits. -/
def code : Cause → String
  | unmatchedParenthesis => "001"
  | trailingInput => "002"
  | danglingEscape => "003"

def reason : Cause → String
  | unmatchedParenthesis => "unmatched parenthesis"
  | trailingInput => "unexpected trailing input"
  | danglingEscape => "dangling escape at end of pattern"

end Cause

/-- A cause and the index of the character that it concerns: the parenthesis that stays open, the
first character left over, or the final backslash. -/
structure Fault where
  cause : Cause
  position : Nat
  deriving DecidableEq

/-- The fault of a pattern that cannot be read. -/
structure PatternError extends Fault where
  pattern : String
  deriving DecidableEq

/-- How the code and the mark of a message are set off from the rest. -/
inductive Colouring where
  | plain
  | ansi
  deriving DecidableEq

namespace Colouring

/-- Bold red on a terminal. -/
def boldRed : Colouring → String → String
  | plain, text => text
  | ansi, text => "\x1b[1;31m" ++ text ++ "\x1b[0m"

/-- Green on a terminal. -/
def green : Colouring → String → String
  | plain, text => text
  | ansi, text => "\x1b[32m" ++ text ++ "\x1b[0m"

end Colouring

namespace PatternError

/-- The text for a user, without a final line end: code, reason and position, then the pattern as it
is, then a mark as far to the right as the position says. -/
def message (error : PatternError) (colouring : Colouring) : String :=
  colouring.boldRed ("[" ++ error.cause.code ++ "]") ++ " " ++ error.cause.reason
    ++ " at position " ++ toString error.position ++ ":\n | " ++ error.pattern
    ++ "\n | " ++ "".pushn ' ' error.position ++ colouring.green "^"

end PatternError

end RegularPattern
