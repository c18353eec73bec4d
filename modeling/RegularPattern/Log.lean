import RegularPattern.Automaton.Dot
import RegularPattern.Simulator.Run

/-!
# Log records

Compiling and matching are logged: a compiled pattern with its number of states and, if the flag
asks for it, its graph; and each event of a run. A record is kept if the level of the log admits
its severity.

## Main definitions

* `Log.Record` — severity, target and message.
* `Log.Level.admits` — which records a level keeps.
* `Automaton.records`, `Event.record` — what is logged.
-/

namespace RegularPattern

namespace Log

/-- How weighty a record is. -/
inductive Severity where
  | debug
  | trace
  deriving DecidableEq

def Severity.name : Severity → String
  | debug => "DEBUG"
  | trace => "TRACE"

/-- How much is logged, from nothing to everything. -/
inductive Level where
  | off
  | error
  | info
  | debug
  | trace
  deriving DecidableEq

/-- The level of a given name. -/
def Level.ofName? : String → Option Level
  | "off" => some off
  | "error" => some error
  | "info" => some info
  | "debug" => some debug
  | "trace" => some trace
  | _ => none

/-- Whether a level keeps records of a severity. -/
def Level.admits : Level → Severity → Bool
  | trace, _ => true
  | debug, .debug => true
  | _, _ => false

structure Record where
  severity : Severity
  target : String
  message : String
  deriving DecidableEq

/-- The records that a level keeps. -/
def Level.keep (level : Level) (records : List Record) : List Record :=
  records.filter fun record => level.admits record.severity

end Log

open Log

/-- What is logged when an automaton has been compiled. -/
def Automaton.records (automaton : Automaton) : List Record :=
  let target := "thompson_re::fsm"
  let summary := "compiled " ++ Text.quoted Text.isVisible automaton.pattern ++ " into "
    ++ toString automaton.size ++ " states"
  ⟨.debug, target, summary⟩
    :: if automaton.flags.debug then [⟨.debug, target, automaton.dot⟩] else []

/-- What is logged at a character of a text. -/
def Event.record (event : Event) : Record :=
  let message := match event with
    | stepped c live =>
      "after " ++ Text.quotedChar Text.isVisible c ++ ": " ++ toString live ++ " live states"
    | exhausted c => "no live states left before " ++ Text.quotedChar Text.isVisible c
  ⟨.trace, "thompson_re::matching", message⟩

/-- What is kept of the log of compiling an automaton and of matching texts with it. -/
def Log.Level.log (level : Level) (automaton : Automaton) (verdicts : List Verdict) :
    List Record :=
  level.keep (automaton.records
    ++ verdicts.flatMap fun verdict => verdict.events.toList.map Event.record)

end RegularPattern
