import RegularPattern.Pattern.Tree
import RegularPattern.Proofs.Pattern.Machine
import RegularPattern.Proofs.Pattern.Scan

/-!
# Reading comes to an end

Each step of the machine takes a character, or else it comes closer to taking one: what is left to
do before that depends on the rule alone that is being read or handed back, however deep it is
nested. Six times the number of characters left, with the rank of the rule added, is therefore a
bound on the number of steps. On the way factors and atoms are read only where there is something
to read, and rules stop where something stands that cannot belong to them.

## Main definitions

* `escapes` — whether a text ends with a backslash that concerns the next character.
* `Moment.OnCourse` — what holds at every moment of a reading.
* `Moment.measure` — what decreases with every step.
* `Moment.Finishes`, `Moment.Progressing` — how the rules that are read at a moment come to an end.
-/

namespace RegularPattern

/-- What may stand where a rule has been read to its end. -/
def Rule.StopsAt : Rule → List Char → Prop
  | expression, rest => ∀ c ∈ rest.head?, c = ')'
  | term, rest => ∀ c ∈ rest.head?, c = ')' ∨ c = '|'
  | factor, _ | atom, _ => True

/-- How many steps may follow on handing back what has been read of a rule, before a character is
taken or the reading is over. -/
@[simp] def Rule.rank : Rule → Nat
  | expression => 1
  | term => 3
  | factor => 5
  | atom => 6

theorem Rule.rank_le (rule : Rule) : rule.rank ≤ 6 := by
  cases rule <;> simp

namespace Reader

variable {σ φ : Type} {make : Construction σ φ}

/-- Whether a text ends with a backslash that is not escaped itself, so that it escapes whatever
comes next. -/
def escapes (text : List Char) : Bool :=
  text.foldl (fun escaping c => !escaping && c == '\\') false

theorem escapes_take_succ {pattern : List Char} {position : Nat} {c : Char}
    (here : pattern[position]? = some c) :
    escapes (pattern.take (position + 1)) = (!escapes (pattern.take position) && c == '\\') := by
  rw [List.take_add_one, here]
  simp [escapes]

theorem startsFactor_eq_false_iff {rest : List Char} :
    startsFactor rest = false ↔ ∀ c ∈ rest.head?, c = ')' ∨ c = '|' := by
  cases rest with
  | nil => simp [startsFactor]
  | cons c tail => by_cases close : c = ')' <;> simp [startsFactor, close]

/-! ## Rules of calls and frames -/

/-- The rule that a call reads, or goes on to read. -/
@[simp] def Call.rule : Call φ → Rule
  | expression | alternatives _ => .expression
  | term | factors _ => .term
  | factor => .factor
  | atom | escaped _ => .atom

/-- How many steps may follow on a call before a character is taken or the reading is over. -/
@[simp] def Call.rank : Call φ → Nat
  | expression => 5
  | term | factors _ => 4
  | alternatives _ | factor => 2
  | atom | escaped _ => 1

/-- What holds where a call is read, about the input and about whether a backslash stands right
before it. -/
def Call.Fits (rest : List Char) (escaping : Bool) : Call φ → Prop
  | expression | term | factors _ => escaping = false
  | alternatives _ => escaping = false ∧ Rule.term.StopsAt rest
  | factor | atom => escaping = false ∧ startsFactor rest = true
  | escaped _ => escaping = true

/-- The rule whose piece a frame waits for. -/
@[simp] def Frame.awaits : Frame φ → Rule
  | firstTerm | nextTerm _ => .term
  | firstFactor | nextFactor _ => .factor
  | operand => .atom
  | group _ => .expression

/-- The rule that a frame goes on with. -/
def Frame.partOf : Frame φ → Rule
  | firstTerm | nextTerm _ => .expression
  | firstFactor | nextFactor _ => .term
  | operand => .factor
  | group _ => .atom

/-- The rule that is being read; outermost it is an expression. -/
@[simp] def awaited : List (Frame φ) → Rule
  | [] => .expression
  | frame :: _ => frame.awaits

/-- Each frame goes on with the rule that the next one waits for. -/
def Nested : List (Frame φ) → Prop
  | [] => True
  | frame :: outer => frame.partOf = awaited outer ∧ Nested outer

/-- What holds where a task is next. -/
def Task.Fits (waiting : List (Frame φ)) (rest : List Char) (escaping : Bool) : Task φ → Prop
  | read call => call.rule = awaited waiting ∧ call.Fits rest escaping
  | handBack _ => (awaited waiting).StopsAt rest ∧ escaping = false
  | fail _ => True

@[simp] def Task.rank (waiting : List (Frame φ)) : Task φ → Nat
  | read call => call.rank
  | handBack _ => (awaited waiting).rank
  | fail _ => 0

theorem Task.rank_le (task : Task φ) (waiting : List (Frame φ)) : task.rank waiting ≤ 6 := by
  cases task with
  | read call => cases call <;> simp
  | handBack piece => exact (awaited waiting).rank_le
  | fail fault => exact Nat.zero_le 6

namespace Moment

variable {pattern : List Char} {moment next later : Moment σ φ}

/-- What holds at every moment of a reading. -/
structure OnCourse (pattern : List Char) (moment : Moment σ φ) : Prop where
  drop_eq : pattern.drop moment.position = moment.rest
  position_le : moment.position ≤ pattern.length
  nested : Nested moment.waiting
  fits : moment.task.Fits moment.waiting moment.rest (escapes (pattern.take moment.position))

/-- A bound on the number of steps that are left. -/
def measure (moment : Moment σ φ) : Nat :=
  6 * moment.rest.length + moment.task.rank moment.waiting

theorem onCourse_start (pattern : List Char) (store : σ) :
    (start pattern store : Moment σ φ).OnCourse pattern :=
  ⟨rfl, Nat.zero_le _, trivial, rfl, rfl⟩

theorem OnCourse.position_add (onCourse : moment.OnCourse pattern) :
    moment.position + moment.rest.length = pattern.length := by
  rw [← onCourse.drop_eq, List.length_drop]
  exact Nat.add_sub_of_le onCourse.position_le

/-! ## One step -/

/-- The next moment is on course too, and nearer to the end. -/
structure Nears (pattern : List Char) (moment next : Moment σ φ) : Prop where
  onCourse : next.OnCourse pattern
  measure_lt : next.measure < moment.measure

namespace OnCourse

variable {task : Task φ} {waiting : List (Frame φ)} {store : σ}

section

variable (onCourse : moment.OnCourse pattern)

include onCourse

/-- A step that takes no character goes on to a task of lower rank. -/
theorem stay (nested : Nested waiting)
    (fits : task.Fits waiting moment.rest (escapes (pattern.take moment.position)))
    (rank_lt : task.rank waiting < moment.task.rank moment.waiting) :
    Nears pattern moment ⟨task, waiting, moment.rest, moment.position, store⟩ :=
  ⟨⟨onCourse.drop_eq, onCourse.position_le, nested, fits⟩, Nat.add_lt_add_left rank_lt _⟩

/-- A step that takes a character may go on to any task, as no rank exceeds six. -/
theorem advance {c : Char} {tail : List Char} (front : moment.rest = c :: tail)
    (nested : Nested waiting)
    (fits : task.Fits waiting tail (!escapes (pattern.take moment.position) && c == '\\'))
    (rank_pos : 0 < moment.task.rank moment.waiting) :
    Nears pattern moment ⟨task, waiting, tail, moment.position + 1, store⟩ := by
  obtain ⟨here, left⟩ := Brackets.getElem?_of_drop (onCourse.drop_eq.trans front)
  refine ⟨⟨left, ?_, nested, ?_⟩, ?_⟩
  · exact (List.getElem?_eq_some_iff.mp here).1
  · rwa [escapes_take_succ here]
  · have rank_le := task.rank_le waiting
    simp only [measure, front, List.length_cons]
    omega

/-- Where a rule ends, its piece is handed back without a character. -/
theorem finish {rule : Rule} {piece : φ} (nested : Nested waiting) (awaits : rule = awaited waiting)
    (stops : rule.StopsAt moment.rest) (clean : escapes (pattern.take moment.position) = false)
    (rank_lt : rule.rank < moment.task.rank moment.waiting) :
    Nears pattern moment ⟨.handBack piece, waiting, moment.rest, moment.position, store⟩ := by
  subst awaits
  exact onCourse.stay nested ⟨stops, clean⟩ rank_lt

end

/-- A call goes on to a task that fits. -/
theorem begin {call : Call φ} {rest : List Char} {position : Nat}
    (onCourse : OnCourse pattern ⟨.read call, waiting, rest, position, store⟩) :
    Nears pattern ⟨.read call, waiting, rest, position, store⟩
      (Moment.begin make ⟨.read call, waiting, rest, position, store⟩ call) := by
  have nested := onCourse.nested
  obtain ⟨rule, fits⟩ := onCourse.fits
  cases call with
  | expression => exact onCourse.stay ⟨rule, nested⟩ ⟨rfl, fits⟩ (by simp)
  | alternatives piece =>
    obtain ⟨clean, stops⟩ := fits
    by_cases bar : ∃ tail, rest = '|' :: tail
    · obtain ⟨tail, rfl⟩ := bar
      exact onCourse.advance rfl ⟨rule, nested⟩ ⟨rfl, by simp [Call.Fits, clean]⟩ Nat.two_pos
    · have noBar (tail : List Char) (front : rest = '|' :: tail) : False := bar ⟨tail, front⟩
      rw [begin_alternatives_of_ne noBar]
      have closes : Rule.expression.StopsAt rest := by
        intro c front
        refine (stops c front).resolve_right fun same => ?_
        obtain ⟨tail, rfl⟩ := List.head?_eq_some_iff.mp front
        exact noBar tail (by rw [same])
      exact onCourse.finish nested rule closes clean (by simp)
  | term | factors piece =>
    by_cases starts : startsFactor rest = true
    · simp only [Moment.begin, if_pos starts]
      exact onCourse.stay ⟨rule, nested⟩ ⟨rfl, fits, starts⟩ (by simp)
    · simp only [Moment.begin, if_neg starts]
      have stops : Rule.term.StopsAt rest := startsFactor_eq_false_iff.mp (by simpa using starts)
      exact onCourse.finish nested rule stops fits (by simp)
  | factor => exact onCourse.stay ⟨rule, nested⟩ ⟨rfl, fits⟩ (by simp)
  | atom =>
    obtain ⟨clean, starts⟩ := fits
    cases rest with
    | nil => cases starts
    | cons c tail =>
      by_cases escape : c = '\\'
      · subst escape
        exact onCourse.advance rfl nested ⟨rule, by simp [Call.Fits, clean]⟩ Nat.one_pos
      · by_cases opening : c = '('
        · subst opening
          exact onCourse.advance rfl ⟨rule, nested⟩ ⟨rfl, by simp [Call.Fits, clean]⟩ Nat.one_pos
        · rw [begin_atom_of_ne rfl escape opening]
          exact onCourse.advance rfl nested ⟨rule ▸ trivial, by simp [escape]⟩ Nat.one_pos
  | escaped backslash =>
    cases rest with
    | nil => exact onCourse.stay nested trivial (by simp)
    | cons c tail =>
      have escaping : escapes (pattern.take position) = true := fits
      exact onCourse.advance rfl nested ⟨rule ▸ trivial, by simp [escaping]⟩ Nat.one_pos

/-- What waits goes on to a task that fits. -/
theorem resume {piece : φ} {frame : Frame φ} {rest : List Char} {position : Nat}
    (onCourse : OnCourse pattern ⟨.handBack piece, frame :: waiting, rest, position, store⟩) :
    Nears pattern ⟨.handBack piece, frame :: waiting, rest, position, store⟩
      (Moment.resume make ⟨.handBack piece, waiting, rest, position, store⟩ piece frame) := by
  obtain ⟨rule, nested⟩ := onCourse.nested
  obtain ⟨stops, clean⟩ := onCourse.fits
  cases frame with
  | firstTerm | nextTerm left =>
    exact onCourse.stay nested ⟨rule, clean, stops⟩ (by simp)
  | firstFactor | nextFactor left =>
    exact onCourse.stay nested ⟨rule, clean⟩ (by simp)
  | operand =>
    have unquantified : Nears pattern
        ⟨.handBack piece, .operand :: waiting, rest, position, store⟩
        ⟨.handBack piece, waiting, rest, position, store⟩ :=
      onCourse.finish nested rule trivial clean (Nat.lt_succ_self 5)
    cases rest with
    | nil => exact unquantified
    | cons c tail =>
      simp only [Moment.resume]
      cases symbol : Quantifier.ofSymbol? c with
      | none => exact unquantified
      | some q =>
        have plain : (c == '\\') = false := by
          obtain rfl := Quantifier.ofSymbol?_eq_some_iff.mp symbol
          cases q <;> rfl
        exact onCourse.advance rfl nested ⟨rule ▸ trivial, by simp [plain]⟩ (Nat.succ_pos 5)
  | group parenthesis =>
    cases rest with
    | nil => exact onCourse.stay nested trivial Nat.one_pos
    | cons c tail =>
      obtain rfl : c = ')' := stops c rfl
      exact onCourse.advance rfl nested ⟨rule ▸ trivial, by simp⟩ Nat.one_pos

/-- Each step stays on course and comes nearer to the end. -/
theorem step (onCourse : moment.OnCourse pattern) (step : moment.step? make = some next) :
    Nears pattern moment next := by
  obtain ⟨task, waiting, rest, position, store⟩ := moment
  cases task with
  | read call =>
    obtain rfl := Option.some.inj step
    exact onCourse.begin
  | handBack piece =>
    cases waiting with
    | nil => cases step
    | cons frame outer =>
      obtain rfl := Option.some.inj step
      exact onCourse.resume
  | fail fault => cases step

/-- So do all steps together, and each of them counts. -/
theorem steps {count : Nat} (onCourse : moment.OnCourse pattern)
    (steps : moment.steps? make count = some later) :
    later.OnCourse pattern ∧ count + later.measure ≤ moment.measure := by
  induction count generalizing moment with
  | zero =>
    obtain rfl := Option.some.inj steps
    exact ⟨onCourse, by simp⟩
  | succ count ih =>
    obtain ⟨next, step, steps⟩ := Option.bind_eq_some_iff.mp steps
    obtain ⟨onCourse, measure_lt⟩ := onCourse.step step
    obtain ⟨onCourse, le⟩ := ih onCourse steps
    exact ⟨onCourse, by omega⟩

end OnCourse

/-! ## Whole rules -/

variable (make) in
/-- The machine comes to the outcome: it hands a piece back to what waited at the moment, and stops
there as it should, or it fails. -/
def Finishes (moment : Moment σ φ) (Stops : List Char → Nat → Prop) {bound : Nat} :
    Outcome σ φ bound → Prop
  | .read piece rest here after _ =>
    moment.Leads make ⟨.handBack piece, moment.waiting, rest, here, after⟩ ∧ Stops rest here
  | .failed fault after =>
    ∃ later, moment.Leads make later ∧ later.task = .fail fault ∧ later.store = after

variable {call : Call φ} {waiting : List (Frame φ)} {rest : List Char} {position bound : Nat}
  {store : σ}

/-- A rule stops at something that does not belong to it, and never behind an open backslash. -/
theorem OnCourse.finishes {outcome : Outcome σ φ bound}
    (onCourse : OnCourse pattern ⟨.read call, waiting, rest, position, store⟩)
    (performs : Performs make call rest position store outcome) :
    Finishes make ⟨.read call, waiting, rest, position, store⟩
      (fun rest here => call.rule.StopsAt rest ∧ escapes (pattern.take here) = false) outcome := by
  cases outcome with
  | failed fault after => exact performs waiting
  | read piece left here after shorter =>
    obtain ⟨count, steps⟩ := performs waiting
    have fits := (onCourse.steps steps).1.fits
    have rule : call.rule = awaited waiting := onCourse.fits.1
    exact ⟨⟨count, steps⟩, rule ▸ fits⟩

theorem Finishes.mono {Stops Stops' : List Char → Nat → Prop} {outcome : Outcome σ φ bound}
    (finishes : moment.Finishes make Stops outcome)
    (le : ∀ rest here, rest.length < bound → Stops rest here → Stops' rest here) :
    moment.Finishes make Stops' outcome := by
  cases outcome with
  | failed fault after => exact finishes
  | read piece left here after shorter => exact ⟨finishes.1, le left here shorter finishes.2⟩

/-- A rule that is read where a factor starts takes a character. -/
theorem OnCourse.shortens {outcome : Outcome σ φ (max 1 rest.length)}
    (onCourse : OnCourse pattern ⟨.read call, waiting, rest, position, store⟩)
    (starts : startsFactor rest = true)
    (performs : Performs make call rest position store outcome) :
    rest ≠ [] ∧ Finishes make ⟨.read call, waiting, rest, position, store⟩
      (fun left _ => left.length < rest.length) outcome := by
  have pos := length_pos_of_startsFactor starts
  refine ⟨List.ne_nil_of_length_pos pos, (onCourse.finishes performs).mono ?_⟩
  intro left _ shorter _
  exact Nat.lt_of_lt_of_eq shorter (Nat.max_eq_right pos)

variable (make) in
/-- All characters of the pattern are accounted for and the next step comes nearer to the end. An
expression stops at the end or before a closing parenthesis that is not escaped, and a term at the
end, before a closing parenthesis or before a bar. Factors and atoms are never read at the end, and
take a character at least. -/
structure Progressing (pattern : List Char) (moment : Moment σ φ) : Prop where
  drop_eq : pattern.drop moment.position = moment.rest
  position_add : moment.position + moment.rest.length = pattern.length
  measure_lt : ∀ next, moment.step? make = some next → next.measure < moment.measure
  expression : moment.task = .read .expression → moment.Finishes make
    (fun rest here => (∀ c ∈ rest.head?, c = ')') ∧ escapes (pattern.take here) = false)
    (expression make moment.rest moment.position moment.store)
  term : moment.task = .read .term → moment.Finishes make
    (fun rest _ => ∀ c ∈ rest.head?, c = ')' ∨ c = '|')
    (term make moment.rest moment.position moment.store)
  factor : moment.task = .read .factor → moment.rest ≠ [] ∧ moment.Finishes make
    (fun rest _ => rest.length < moment.rest.length)
    (factor make moment.rest moment.position moment.store)
  atom : moment.task = .read .atom → moment.rest ≠ [] ∧ moment.Finishes make
    (fun rest _ => rest.length < moment.rest.length)
    (atom make moment.rest moment.position moment.store)

theorem OnCourse.progressing (onCourse : moment.OnCourse pattern) :
    moment.Progressing make pattern := by
  obtain ⟨expressions, -, terms, -, factors, atoms⟩ := performs_rules make
  obtain ⟨task, waiting, rest, position, store⟩ := moment
  refine ⟨onCourse.drop_eq, onCourse.position_add, fun next step => (onCourse.step step).measure_lt,
    ?_, ?_, ?_, ?_⟩
  · rintro ⟨⟩
    exact onCourse.finishes (expressions rest position store)
  · rintro ⟨⟩
    exact (onCourse.finishes (terms rest position store)).mono fun _ _ _ stops => stops.1
  · rintro ⟨⟩
    exact onCourse.shortens onCourse.fits.2.2 (factors rest position store)
  · rintro ⟨⟩
    exact onCourse.shortens onCourse.fits.2.2 (atoms rest position store)

end Moment

open Moment

/-! ## Whole patterns -/

/-- The machine stops where the reader does, with what the reader gives. -/
theorem exists_last (make : Construction σ φ) (pattern : List Char) (store : σ) :
    ∃ last, (start pattern store).Leads make last ∧ last.step? make = none ∧
      last.result? = some (make.read pattern store) := by
  have comes := (performs_rules make).1 pattern 0 store []
  unfold Construction.read
  cases outcome : expression make pattern 0 store with
  | failed fault after =>
    rw [outcome] at comes
    obtain ⟨⟨task, waiting, rest, position, store⟩, leads, rfl, rfl⟩ := comes
    exact ⟨_, leads, rfl, rfl⟩
  | read piece rest here after shorter =>
    rw [outcome] at comes
    exact ⟨_, comes, rfl, by cases rest <;> rfl⟩

/-- Reading a pattern comes to an end: so many steps, bounded by the length of the pattern, lead to
a moment without a next one, where the result is that of the reader. Every moment on the way
accounts for all characters, is nearer to the end than the one before, and reads its rules as
they must be read. -/
theorem reading_progresses (make : Construction σ φ) (pattern : List Char) (store : σ) :
    (∃ count ≤ 6 * pattern.length + 5, ∃ last,
      (start pattern store).steps? make count = some last ∧ last.step? make = none ∧
        last.result? = some (make.read pattern store)) ∧
    ∀ count moment, (start pattern store).steps? make count = some moment →
      moment.Progressing make pattern := by
  have onCourse := onCourse_start (φ := φ) pattern store
  refine ⟨?_, fun count moment steps => (onCourse.steps steps).1.progressing⟩
  obtain ⟨last, ⟨count, steps⟩, final⟩ := exists_last make pattern store
  have le := (onCourse.steps steps).2
  exact ⟨count, Nat.le_trans (Nat.le_add_right _ _) le, last, steps, final⟩

/-- Inside a group that holds an escaped parenthesis: the expression stops before the other one. -/
theorem reading_progresses_of_group :
    ∃ moment : Moment Unit Regex,
      (start "(\\))".toList ()).steps? Regex.construction 4 = some moment ∧
      moment.task = .read .expression ∧ moment.position = 1 ∧
      moment.Leads Regex.construction
        ⟨.handBack (.literal ')'), moment.waiting, ")".toList, 3, ()⟩ ∧
      escapes ("(\\))".toList.take 3) = false := by
  let inner : Moment Unit Regex :=
    ⟨.read .expression, [.group 0, .operand, .firstFactor, .firstTerm], "\\))".toList, 1, ()⟩
  have steps : (start "(\\))".toList ()).steps? Regex.construction 4 = some inner := rfl
  have read : expression Regex.construction inner.rest inner.position inner.store =
      .read (.literal ')') ")".toList 3 () (by decide) := by
    simp [inner, expression, term, factor, atom, escaped, quantify, factors, alternatives,
      startsFactor, Quantifier.ofSymbol?, Regex.construction, unescape]
  have moments := (reading_progresses Regex.construction "(\\))".toList ()).2
  have finishes := (moments 4 inner steps).expression rfl
  rw [read] at finishes
  obtain ⟨leads, -, clean⟩ := finishes
  exact ⟨inner, steps, rfl, rfl, leads, clean⟩

end Reader

end RegularPattern
