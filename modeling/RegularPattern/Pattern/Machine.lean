import RegularPattern.Pattern.Reader

/-!
# Reading in single steps

The reader once more, as a machine that goes from moment to moment and never calls itself: what
waits for the rule that is being read stands in a list, the innermost first. A step takes at most
one character of the input. A fault ends the reading at once, whatever waits.

## Main definitions

* `Reader.Call`, `Reader.Frame`, `Reader.Task` — what is read, what waits for it, what comes next.
* `Reader.Moment` — the machine between two steps.
* `Moment.step?`, `Moment.steps?` — one step and several steps; none where the reading is over.
* `Moment.result?` — what has come of a reading that is over.
-/

namespace RegularPattern.Reader

/-- What is read next. A sequence is read on from the piece that has been made of it so far. -/
inductive Call (φ : Type) where
  | expression
  | alternatives (piece : φ)
  | term
  | factors (piece : φ)
  | factor
  | atom
  /-- The character behind a backslash at the given position. -/
  | escaped (backslash : Nat)

/-- What waits for a piece, with what it needs to go on. -/
inductive Frame (φ : Type) where
  | firstTerm
  | nextTerm (left : φ)
  | firstFactor
  | nextFactor (left : φ)
  | operand
  | group (parenthesis : Nat)

/-- What the machine does next. -/
inductive Task (φ : Type) where
  | read (call : Call φ)
  | handBack (piece : φ)
  | fail (fault : Fault)

/-- The machine between two steps: input that is left, position in the pattern and store are those
of the reader. -/
structure Moment (σ φ : Type) where
  task : Task φ
  waiting : List (Frame φ)
  rest : List Char
  position : Nat
  store : σ

namespace Moment

variable {σ φ : Type}

/-- A whole pattern is about to be read, and nothing waits for it. -/
def start (pattern : List Char) (store : σ) : Moment σ φ :=
  ⟨.read .expression, [], pattern, 0, store⟩

/-- Takes a character, behind which `tail` is left. -/
def take (moment : Moment σ φ) (tail : List Char) : Moment σ φ :=
  { moment with rest := tail, position := moment.position + 1 }

/-- Is going to read something that the frame waits for. -/
def enter (moment : Moment σ φ) (call : Call φ) (frame : Frame φ) : Moment σ φ :=
  { moment with task := .read call, waiting := frame :: moment.waiting }

/-- Goes on with what has just been built. -/
def proceed (moment : Moment σ φ) (task : φ → Task φ) (built : φ × σ) : Moment σ φ :=
  { moment with task := task built.1, store := built.2 }

def fail (moment : Moment σ φ) (fault : Fault) : Moment σ φ :=
  { moment with task := .fail fault }

variable (make : Construction σ φ)

/-- The step that starts to read. -/
def begin (moment : Moment σ φ) : Call φ → Moment σ φ
  | .expression => moment.enter .term .firstTerm
  | .alternatives piece =>
    match moment.rest with
    | '|' :: tail => (moment.take tail).enter .term (.nextTerm piece)
    | _ => moment.proceed .handBack (piece, moment.store)
  | .term =>
    if startsFactor moment.rest then
      moment.enter .factor .firstFactor
    else
      moment.proceed .handBack (make.empty moment.store)
  | .factors piece =>
    if startsFactor moment.rest then
      moment.enter .factor (.nextFactor piece)
    else
      moment.proceed .handBack (piece, moment.store)
  | .factor => moment.enter .atom .operand
  | .atom =>
    match moment.rest with
    | [] => moment.proceed .handBack (make.empty moment.store)
    | '\\' :: tail => { moment.take tail with task := .read (.escaped moment.position) }
    | '(' :: tail => (moment.take tail).enter .expression (.group moment.position)
    | c :: tail => (moment.take tail).proceed .handBack (make.literal c moment.store)
  | .escaped backslash =>
    match moment.rest with
    | [] => moment.fail ⟨.danglingEscape, backslash⟩
    | c :: tail => (moment.take tail).proceed .handBack (make.literal (unescape c) moment.store)

/-- The step that gives a piece to what waits for it. -/
def resume (moment : Moment σ φ) (piece : φ) : Frame φ → Moment σ φ
  | .firstTerm => moment.proceed (.read ∘ .alternatives) (piece, moment.store)
  | .nextTerm left =>
    moment.proceed (.read ∘ .alternatives) (make.alternation left piece moment.store)
  | .firstFactor => moment.proceed (.read ∘ .factors) (piece, moment.store)
  | .nextFactor left => moment.proceed (.read ∘ .factors) (make.concat left piece moment.store)
  | .operand =>
    match moment.rest with
    | [] => moment.proceed .handBack (piece, moment.store)
    | c :: tail =>
      match Quantifier.ofSymbol? c with
      | none => moment.proceed .handBack (piece, moment.store)
      | some q => (moment.take tail).proceed .handBack (make.quantified q piece moment.store)
  | .group parenthesis =>
    match moment.rest with
    | ')' :: tail => (moment.take tail).proceed .handBack (piece, moment.store)
    | _ => moment.fail ⟨.unmatchedParenthesis, parenthesis⟩

/-- The next moment. -/
def step? (moment : Moment σ φ) : Option (Moment σ φ) :=
  match moment.task, moment.waiting with
  | .read call, _ => some (moment.begin make call)
  | .handBack piece, frame :: outer =>
    some ({ moment with waiting := outer }.resume make piece frame)
  | .handBack _, [] => none
  | .fail _, _ => none

/-- The moment after as many steps. -/
def steps? : Nat → Moment σ φ → Option (Moment σ φ)
  | 0, moment => some moment
  | count + 1, moment => (moment.step? make).bind (steps? count)

/-- What has come of the pattern, at a moment behind which there is no other. -/
def result? (moment : Moment σ φ) : Option (Except Fault φ × σ) :=
  match moment.task, moment.waiting, moment.rest with
  | .handBack piece, [], [] => some (.ok piece, moment.store)
  | .handBack _, [], _ :: _ => some (.error ⟨.trailingInput, moment.position⟩, moment.store)
  | .fail fault, _, _ => some (.error fault, moment.store)
  | _, _, _ => none

end Moment

end RegularPattern.Reader
