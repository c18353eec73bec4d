import RegularPattern.Automaton.Dot

/-!
# Calls of the program

The arguments of a call ask for texts to be matched with a pattern, or they are answered at once, as
a call for help is. Which of the two is a matter of the reader of the arguments.

## Main definitions

* `Command.Response` — exit status and printed texts.
* `Command.Request` — what to do with a pattern.
* `Command.Invocation` — what a call of the program asks for.
-/

namespace RegularPattern.Command

/-- The exit status and what is printed. -/
structure Response where
  code : Nat
  stdout : String
  stderr : String
  deriving DecidableEq

/-- A pattern, the texts to match, and the options. -/
structure Request where
  pattern : String
  texts : List String
  dot : Bool
  debug : Bool
  deriving DecidableEq

/-- What a call of the program asks for. -/
inductive Invocation where
  | request (request : Request)
  /-- The arguments alone decide on the response. -/
  | done (response : Response)
  deriving DecidableEq

namespace Request

def compile (request : Request) : Except PatternError Automaton :=
  RegularPattern.compile request.pattern ⟨request.debug⟩

/-- Whether the standard input is used at all. -/
def readsInput (request : Request) : Bool :=
  request.texts.isEmpty && request.compile.isOk

end Request

def Invocation.readsInput : Invocation → Bool
  | request r => r.readsInput
  | done _ => false

end RegularPattern.Command
