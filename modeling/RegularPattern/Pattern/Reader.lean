import RegularPattern.Regex
import RegularPattern.Pattern.Error

/-!
# Reading patterns

A pattern is read once, from left to right, with one character of lookahead:

    expression  =  term ( '|' term )*
    term        =  factor*
    factor      =  atom ( '*' | '+' | '?' )?
    atom        =  '\' any  |  '(' expression ')'  |  any

What is built while reading is a parameter: a `Construction` says what to do at each rule, the
moment the rule is complete. Alternatives and factors are combined from the left. A group builds
nothing, and a quantifier symbol where an atom is expected stands for itself.

Every result carries the proof that the input has become shorter, as far as the rule promises it;
this is what makes the mutual recursion terminate.

## Main definitions

* `Construction` — what to build at each rule.
* `Reader.expression`, `term`, `factor`, `atom` — one function for each rule.
* `Construction.read` — a whole pattern.
-/

namespace RegularPattern

/-- What to build while a pattern is read: `σ` holds all that has been built so far, `φ` names one
piece of it. -/
structure Construction (σ φ : Type) where
  empty : σ → φ × σ
  literal : Char → σ → φ × σ
  concat : φ → φ → σ → φ × σ
  alternation : φ → φ → σ → φ × σ
  quantified : Quantifier → φ → σ → φ × σ

namespace Reader

/-- What comes of reading one rule: the piece built and the input that is left, shorter than
`bound`; or a fault. The store is handed on in both cases. -/
inductive Outcome (σ φ : Type) (bound : Nat) where
  | read (piece : φ) (rest : List Char) (position : Nat) (store : σ)
      (shorter : rest.length < bound)
  | failed (fault : Fault) (store : σ)

/-- Forgets part of the progress that an outcome promises. -/
def Outcome.widen {σ φ : Type} {bound larger : Nat} (outcome : Outcome σ φ bound)
    (le : bound ≤ larger) : Outcome σ φ larger :=
  match outcome with
  | read piece rest position store shorter =>
    read piece rest position store (Nat.lt_of_lt_of_le shorter le)
  | failed fault store => failed fault store

@[simp] theorem Outcome.widen_failed {σ φ : Type} {bound larger : Nat} (fault : Fault)
    (store : σ) (le : bound ≤ larger) :
    (failed fault store : Outcome σ φ bound).widen le = failed fault store := rfl

@[simp] theorem Outcome.widen_read {σ φ : Type} {bound larger : Nat} (piece : φ)
    (rest : List Char) (position : Nat) (store : σ) (shorter : rest.length < bound)
    (le : bound ≤ larger) :
    (read piece rest position store shorter : Outcome σ φ bound).widen le =
      read piece rest position store (Nat.lt_of_lt_of_le shorter le) := rfl

/-- Whether a term goes on here: a closing parenthesis, a bar and the end of the input end it. -/
def startsFactor : List Char → Bool
  | [] => false
  | c :: _ => c != ')' && c != '|'

theorem length_pos_of_startsFactor {input : List Char} (h : startsFactor input = true) :
    1 ≤ input.length := by
  cases input <;> simp_all [startsFactor]

/-- The character that a backslash and the given character stand for. -/
def unescape : Char → Char
  | 'n' => '\n'
  | 't' => '\t'
  | c => c

section

variable {σ φ : Type} (make : Construction σ φ)

/-- Takes the quantifier behind an atom, if one stands there. -/
def quantify {bound : Nat} (atom : Outcome σ φ bound) : Outcome σ φ bound :=
  match atom with
  | .failed fault store => .failed fault store
  | .read piece [] position store shorter => .read piece [] position store shorter
  | .read piece (c :: tail) position store shorter =>
    match Quantifier.ofSymbol? c with
    | none => .read piece (c :: tail) position store shorter
    | some q =>
      let built := make.quantified q piece store
      .read built.1 tail (position + 1) built.2 (Nat.lt_of_succ_lt shorter)

/-- The character behind a backslash; `position` is that of the backslash. -/
def escaped (input : List Char) (position : Nat) (store : σ) :
    Outcome σ φ (input.length + 1) :=
  match input with
  | [] => .failed ⟨.danglingEscape, position⟩ store
  | c :: tail =>
    let built := make.literal (unescape c) store
    .read built.1 tail (position + 2) built.2 (by simp only [List.length_cons]; omega)

/-- Takes the parenthesis that closes a group; `position` is that of the one that opened it. -/
def close {bound : Nat} (inner : Outcome σ φ bound) (position : Nat) : Outcome σ φ bound :=
  match inner with
  | .failed fault store => .failed fault store
  | .read _ [] _ store _ => .failed ⟨.unmatchedParenthesis, position⟩ store
  | .read piece (c :: tail) here store shorter =>
    if c = ')' then
      .read piece tail (here + 1) store (Nat.lt_of_succ_lt shorter)
    else
      .failed ⟨.unmatchedParenthesis, position⟩ store

mutual

/-- One or more terms, with bars between them. -/
def expression (input : List Char) (position : Nat) (store : σ) :
    Outcome σ φ (input.length + 1) :=
  match term input position store with
  | .failed fault store => .failed fault store
  | .read piece rest position store shorter =>
    (alternatives piece rest position store).widen shorter
termination_by 4 * input.length + 3

/-- The terms that follow `piece`, each behind a bar. -/
def alternatives (piece : φ) (input : List Char) (position : Nat) (store : σ) :
    Outcome σ φ (input.length + 1) :=
  match input with
  | '|' :: tail =>
    match term tail (position + 1) store with
    | .failed fault store => .failed fault store
    | .read right rest position store shorter =>
      let built := make.alternation piece right store
      (alternatives built.1 rest position built.2).widen (by simp only [List.length_cons]; omega)
  | input => .read piece input position store (Nat.lt_succ_self _)
termination_by 4 * input.length + 2

/-- As many factors as there are; without any, the empty word. -/
def term (input : List Char) (position : Nat) (store : σ) : Outcome σ φ (input.length + 1) :=
  if starts : startsFactor input = true then
    match factor input position store with
    | .failed fault store => .failed fault store
    | .read piece rest position store shorter =>
      have := length_pos_of_startsFactor starts
      (factors piece rest position store).widen (by omega)
  else
    let built := make.empty store
    .read built.1 input position built.2 (Nat.lt_succ_self _)
termination_by 4 * input.length + 2

/-- The factors that follow `piece` in its term. -/
def factors (piece : φ) (input : List Char) (position : Nat) (store : σ) :
    Outcome σ φ (input.length + 1) :=
  if starts : startsFactor input = true then
    match factor input position store with
    | .failed fault store => .failed fault store
    | .read next rest position store shorter =>
      have := length_pos_of_startsFactor starts
      let built := make.concat piece next store
      (factors built.1 rest position built.2).widen (by omega)
  else
    .read piece input position store (Nat.lt_succ_self _)
termination_by 4 * input.length + 2

/-- An atom and at most one quantifier. -/
def factor (input : List Char) (position : Nat) (store : σ) :
    Outcome σ φ (max 1 input.length) :=
  quantify make (atom input position store)
termination_by 4 * input.length + 1

/-- A character, an escaped character or a group; at the end of the input, the empty word. -/
def atom (input : List Char) (position : Nat) (store : σ) : Outcome σ φ (max 1 input.length) :=
  match input with
  | [] =>
    let built := make.empty store
    .read built.1 [] position built.2 (Nat.le_max_left ..)
  | '\\' :: tail => (escaped make tail position store).widen (Nat.le_max_right ..)
  | '(' :: tail =>
    (close (expression tail (position + 1) store) position).widen (Nat.le_max_right ..)
  | c :: tail =>
    let built := make.literal c store
    .read built.1 tail (position + 1) built.2 (Nat.le_max_right ..)
termination_by 4 * input.length

end

end

end Reader

/-- Reads a whole pattern, starting from `store`. Input that the outermost expression leaves over
is a fault at its first character. -/
def Construction.read {σ φ : Type} (make : Construction σ φ) (pattern : List Char) (store : σ) :
    Except Fault φ × σ :=
  match Reader.expression make pattern 0 store with
  | .failed fault store => (.error fault, store)
  | .read piece [] _ store _ => (.ok piece, store)
  | .read _ (_ :: _) position store _ => (.error ⟨.trailingInput, position⟩, store)

end RegularPattern
