/-!
# Lines

A line ends at a line feed. One carriage return right before the line feed belongs to the line end
too. What follows the last line feed is a line only if it is not empty, and keeps its carriage
return. The rule is the same for bytes and for characters, so the two codes are parameters.

## Main definitions

* `Text.cut` — the pieces between line feeds.
* `Text.lines` — the lines.
* `Text.decodeLines` — the lines of a sequence of bytes, up to the first that is no UTF-8.
-/

namespace RegularPattern.Text

section

variable {α : Type} [DecidableEq α]

/-- The pieces before, between and after the occurrences of `feed`. -/
def cut (feed : α) : List α → List (List α)
  | [] => [[]]
  | x :: rest =>
    if x = feed then [] :: cut feed rest
    else (cut feed rest).modifyHead (x :: ·)

theorem cut_ne_nil (feed : α) (xs : List α) : cut feed xs ≠ [] := by
  induction xs with
  | nil => simp [cut]
  | cons x rest ih => by_cases h : x = feed <;> simp [cut, h, ih]

/-- Drops one carriage return at the end. -/
def dropReturn (carriage : α) (line : List α) : List α :=
  if line.getLast? = some carriage then line.dropLast else line

/-- The lines of a text. -/
def lines (feed carriage : α) (xs : List α) : List (List α) :=
  let pieces := cut feed xs
  let last := pieces.getLast (cut_ne_nil feed xs)
  pieces.dropLast.map (dropReturn carriage) ++ if last = [] then [] else [last]

end

/-- Texts read from bytes, and whether all bytes could be read. -/
structure Decoded where
  texts : List String
  complete : Bool
  deriving DecidableEq

/-- Decodes texts in turn and stops before the first that is no UTF-8. -/
def decodeAll : List (List UInt8) → Decoded
  | [] => ⟨[], true⟩
  | bytes :: others =>
    match String.fromUTF8? ⟨bytes.toArray⟩ with
    | none => ⟨[], false⟩
    | some text =>
      let decoded := decodeAll others
      ⟨text :: decoded.texts, decoded.complete⟩

/-- The lines of a sequence of bytes. -/
def decodeLines (bytes : List UInt8) : Decoded :=
  decodeAll (lines 0x0a 0x0d bytes)

end RegularPattern.Text
