/-!
# Escaped characters

Texts are shown with a backslash before the characters that could be mistaken. Line ends, tabs,
the null character and the backslash itself have escapes of two characters, quotes are escaped
where the surrounding text is set in them, and a character that is not visible is written by its
number in hexadecimal.

## Main definitions

* `Text.Quotes` — which quotes are escaped.
* `Text.escape` — the written form of one character, for any choice of the visible ones.
* `Text.quoted`, `Text.quotedChar` — a text and a character between quotes.
-/

namespace RegularPattern.Text

/-- The quotes that are escaped. -/
inductive Quotes where
  | single
  | double
  | both
  deriving DecidableEq

/-- Whether a character is one of the quotes. -/
def Quotes.escapes : Quotes → Char → Bool
  | single, c => c == '\''
  | double, c => c == '"'
  | both, c => c == '\'' || c == '"'

/-- The number of a character, in lower case and without leading zeros. -/
def numbered (c : Char) : List Char :=
  ['\\', 'u', '\x7b'] ++ Nat.toDigits 16 c.toNat ++ ['\x7d']

/-- The written form of a character. `visible` decides which characters stand for themselves, as
far as they have no escape of two characters. -/
def escape (visible : Char → Bool) (quotes : Quotes) : Char → List Char
  | '\x00' => ['\\', '0']
  | '\t' => ['\\', 't']
  | '\r' => ['\\', 'r']
  | '\n' => ['\\', 'n']
  | '\\' => ['\\', '\\']
  | c => if quotes.escapes c then ['\\', c] else if visible c then [c] else numbered c

/-- A text between double quotes. -/
def quoted (visible : Char → Bool) (text : String) : String :=
  "\"" ++ String.ofList (text.toList.flatMap (escape visible .double)) ++ "\""

/-- A character between single quotes. -/
def quotedChar (visible : Char → Bool) (c : Char) : String :=
  "'" ++ String.ofList (escape visible .single c) ++ "'"

end RegularPattern.Text
