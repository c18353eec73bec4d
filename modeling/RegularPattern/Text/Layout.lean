/-!
# Layout of structured values

The text of a record, a list or a map, from the texts of its parts: either in one line, or with
each part on a line of its own, four blanks further in and followed by a comma. Lists and maps
without entries stay closed in both.

## Main definitions

* `Text.Style` — one line or many.
* `Text.record`, `Text.list`, `Text.map` — the text of a record, of a list, of a map.
-/

namespace RegularPattern.Text

/-- Whether the parts of a value share a line. -/
inductive Style where
  | compact
  | pretty
  deriving DecidableEq

/-- Moves every line of a text four blanks to the right. -/
def indent (text : String) : String :=
  "    " ++ String.ofList (text.toList.flatMap fun c =>
    if c = '\n' then ['\n', ' ', ' ', ' ', ' '] else [c])

/-- Parts on lines of their own, between an opening and a closing text. -/
def block (opening closing : String) (parts : List String) : String :=
  opening ++ "\n" ++ String.join (parts.map fun part => indent part ++ ",\n") ++ closing

/-- Parts between brackets. -/
def enclosed (style : Style) (opening closing : String) (parts : List String) : String :=
  match style, parts with
  | _, [] => opening ++ closing
  | .compact, parts => opening ++ ", ".intercalate parts ++ closing
  | .pretty, parts => block opening closing parts

def list (style : Style) (items : List String) : String :=
  enclosed style "[" "]" items

/-- A key or a field name with its value. -/
def entry (key value : String) : String :=
  key ++ ": " ++ value

def map (style : Style) (entries : List (String × String)) : String :=
  enclosed style "\x7b" "\x7d" (entries.map fun e => entry e.1 e.2)

/-- A record, with its name before the braces. -/
def record (style : Style) (name : String) (fields : List (String × String)) : String :=
  let parts := fields.map fun field => entry field.1 field.2
  match style with
  | .compact => name ++ " \x7b " ++ ", ".intercalate parts ++ " \x7d"
  | .pretty => block (name ++ " \x7b") "\x7d" parts

end RegularPattern.Text
