import RegularPattern.Command.Arguments
import RegularPattern.Log
import RegularPattern.Text.Lines

/-!
# Answers of the command line

The graph is printed first if it is asked for, then one line for each text, which says whether the
pattern matches it. Without texts, the lines of the standard input are matched. The exit status
tells whether all texts matched. Log records are no part of the response.

## Main definitions

* `Command.Display` — how texts are shown.
* `Command.Request.respondWith` — the answer to a request.
* `Command.Invocation.respondWith` — the answer to a call of the program.
-/

namespace RegularPattern.Command

/-- How texts are shown: which characters stand for themselves in labels of the graph, and whether
errors are coloured. -/
structure Display where
  visible : Char → Bool
  colouring : Colouring

/-- Without colours, as on anything that is not a terminal. -/
def Display.plain : Display :=
  ⟨Text.isVisible, .plain⟩

/-- One line for each text. -/
def answers (accepted : List Bool) : String :=
  String.join (accepted.map fun answer => if answer then "true\n" else "false\n")

namespace Request

/-- The texts to match: those of the request or, without any, the lines of the input. -/
def inputTexts (request : Request) (input : List UInt8) : Text.Decoded :=
  if request.texts.isEmpty then Text.decodeLines input else ⟨request.texts, true⟩

/-- The answer to a request. Input that is no UTF-8 ends the answers with an error; a pattern that
cannot be read is the only thing reported. -/
def respondWith (display : Display) (request : Request) (input : List UInt8) : Response :=
  match request.compile with
  | .error error => ⟨2, "", error.message display.colouring ++ "\n"⟩
  | .ok automaton =>
    let graph := if request.dot then automaton.dotWith display.visible ++ "\n" else ""
    let decoded := request.inputTexts input
    let accepted := (automaton.verdicts decoded.texts).map Verdict.accepted
    let printed := graph ++ answers accepted
    if decoded.complete then
      ⟨if accepted.all id then 0 else 1, printed, ""⟩
    else
      ⟨1, printed, "Error: stream did not contain valid UTF-8\n"⟩

end Request

namespace Invocation

/-- The answer to a call of the program. -/
def respondWith (display : Display) (invocation : Invocation) (input : List UInt8) : Response :=
  match invocation with
  | request r => r.respondWith display input
  | done response => response

/-- The answer to a call of the program, without colours. -/
def respond (invocation : Invocation) (input : List UInt8) : Response :=
  invocation.respondWith .plain input

end Invocation

end RegularPattern.Command
