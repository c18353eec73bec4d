import RegularPattern.Automaton.Basic
import RegularPattern.Text.Escape
import RegularPattern.Text.Layout
import RegularPattern.Text.Visible

/-!
# Automata and errors as structured text

Every field of an automaton under its name, in one line or in many, and a pattern error with its
pattern between quotes.

## Main definitions

* `Automaton.outline` — the fields of an automaton.
* `PatternError.outline` — cause, pattern and position.
-/

namespace RegularPattern

open Text

def State.outline (style : Style) (state : State) : String :=
  record style "AutomatonState"
    [("transitions", map style (state.transitions.map fun entry =>
        (quotedChar isVisible entry.1, list style (entry.2.map toString)))),
      ("epsilons", list style (state.epsilons.map toString))]

def Automaton.outline (style : Style) (automaton : Automaton) : String :=
  record style "Automaton"
    [("pattern", quoted isVisible automaton.pattern),
      ("flags", automaton.flags.name),
      ("states", list style (automaton.states.toList.map (State.outline style))),
      ("start", toString automaton.start),
      ("out", toString automaton.out)]

def PatternError.outline (error : PatternError) : String :=
  error.cause.name ++ "(" ++ quoted isVisible error.pattern ++ ", " ++ toString error.position
    ++ ")"

end RegularPattern
