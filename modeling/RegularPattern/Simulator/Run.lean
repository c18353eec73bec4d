import RegularPattern.Automaton.Basic
import RegularPattern.Simulator.Basic

/-!
# Matching texts

A run reads a text one character at a time and stops early once no state is live. The text is
accepted if it was read to its end and the exit of the automaton is live then. The memory of the
simulator is handed from one text to the next.

## Main definitions

* `Event`, `Verdict` — what happens during a run, and what comes of it.
* `Simulator.run`, `Simulator.runAll` — one text, and several texts in turn.
* `Automaton.accepts` — one text with a new simulator.
* `Automaton.acceptance` — all words over an alphabet, by length.
-/

namespace RegularPattern

/-- What happens at a character of a text. -/
inductive Event where
  /-- The character was consumed and left so many states live. -/
  | stepped (c : Char) (live : Nat)
  /-- No state was live before the character, and the run stopped. -/
  | exhausted (c : Char)
  deriving DecidableEq

/-- The answer for a text, and what happened on the way to it. -/
structure Verdict where
  accepted : Bool
  events : Array Event
  deriving DecidableEq

namespace Simulator

/-- The states that are live before the first character. -/
def begin (automaton : Automaton) (sim : Simulator) : Simulator :=
  (sim.newList.closure automaton.toGraph automaton.start).swap

/-- Reads the rest of a text, after the given events. -/
def consume (automaton : Automaton) (sim : Simulator) (events : Array Event) :
    List Char → Verdict × Simulator
  | [] => (⟨sim.onList automaton.out, events⟩, sim)
  | c :: rest =>
    if sim.current.isEmpty then
      (⟨false, events.push (.exhausted c)⟩, sim)
    else
      let stepped := sim.step automaton.toGraph c
      consume automaton stepped (events.push (.stepped c stepped.current.size)) rest

/-- Matches a whole text. -/
def run (automaton : Automaton) (sim : Simulator) (text : List Char) : Verdict × Simulator :=
  consume automaton (sim.begin automaton) #[] text

/-- Matches texts in turn, with the memory that each leaves to the next. -/
def runAll (automaton : Automaton) (sim : Simulator) :
    List (List Char) → List Verdict × Simulator
  | [] => ([], sim)
  | text :: texts =>
    let first := sim.run automaton text
    let others := runAll automaton first.2 texts
    (first.1 :: others.1, others.2)

/-- Whether a text is accepted, and the memory that is left. -/
def isMatch (automaton : Automaton) (sim : Simulator) (text : String) : Bool × Simulator :=
  let result := sim.run automaton text.toList
  (result.1.accepted, result.2)

end Simulator

namespace Automaton

/-- A simulator for the automaton. -/
def simulator (automaton : Automaton) : Simulator :=
  Simulator.initial automaton.toGraph

/-- Whether the automaton accepts the whole of a text. -/
def accepts (automaton : Automaton) (text : String) : Bool :=
  (automaton.simulator.isMatch automaton text).1

/-- The verdicts on several texts, with one simulator. -/
def verdicts (automaton : Automaton) (texts : List String) : List Verdict :=
  (automaton.simulator.runAll automaton (texts.map String.toList)).1

/-- The words of `length` members of an alphabet, the last member varying fastest. -/
def words (alphabet : List (List Char)) : (length : Nat) → List (List Char)
  | 0 => [[]]
  | length + 1 =>
    alphabet.flatMap fun member => (words alphabet length).map (member ++ ·)

/-- For each of the lengths, whether each of the words of that length is accepted; one simulator
serves all of them. -/
def acceptanceFrom (automaton : Automaton) (alphabet : List (List Char)) (sim : Simulator) :
    List Nat → List (List Bool)
  | [] => []
  | length :: lengths =>
    let row := sim.runAll automaton (words alphabet length)
    row.1.map Verdict.accepted :: acceptanceFrom automaton alphabet row.2 lengths

/-- Acceptance of all words of at most `maxLength` members of an alphabet. -/
def acceptance (automaton : Automaton) (alphabet : List String) (maxLength : Nat) :
    List (List Bool) :=
  acceptanceFrom automaton (alphabet.map String.toList) automaton.simulator
    (List.range (maxLength + 1))

end Automaton

end RegularPattern
