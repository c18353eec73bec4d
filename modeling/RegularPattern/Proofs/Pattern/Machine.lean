import RegularPattern.Pattern.Machine

/-!
# The machine does what the reader does

From a moment at which a rule is about to be read, the machine comes to what the function of that
rule gives for the input, position and store of the moment, and everything that waited still waits.

## Main definitions

* `Moment.Leads` — steps from one moment to another.
* `Moment.ComesTo` — steps to an outcome of the reader.
* `Performs` — the machine comes to an outcome whatever waits for it.
-/

namespace RegularPattern.Reader

variable {σ φ : Type} {make : Construction σ φ}

namespace Moment

variable {moment middle later : Moment σ φ} {waiting : List (Frame φ)} {bound : Nat}

/-! ## Single steps -/

theorem begin_alternatives_of_ne {piece : φ} (noBar : ∀ tail, moment.rest = '|' :: tail → False) :
    moment.begin make (.alternatives piece) = moment.proceed .handBack (piece, moment.store) := by
  simp only [begin]

theorem begin_atom_of_ne {c : Char} {tail : List Char} (front : moment.rest = c :: tail)
    (neEscape : c = '\\' → False) (neOpen : c = '(' → False) :
    moment.begin make .atom =
      (moment.take tail).proceed .handBack (make.literal c moment.store) := by
  simp only [begin, front]

/-! ## Runs of steps -/

theorem steps?_add (make : Construction σ φ) (first second : Nat) (moment : Moment σ φ) :
    moment.steps? make (first + second) =
      (moment.steps? make first).bind (steps? make second) := by
  induction first generalizing moment with
  | zero => simp [steps?]
  | succ first ih =>
    rw [Nat.add_right_comm, steps?, steps?]
    cases moment.step? make with
    | none => rfl
    | some next => exact ih next

variable (make) in
/-- Some number of steps leads from one moment to another. -/
def Leads (moment later : Moment σ φ) : Prop :=
  ∃ count, moment.steps? make count = some later

theorem Leads.refl (moment : Moment σ φ) : moment.Leads make moment := ⟨0, rfl⟩

theorem Leads.trans (early : moment.Leads make middle) (late : middle.Leads make later) :
    moment.Leads make later := by
  obtain ⟨first, early⟩ := early
  obtain ⟨second, late⟩ := late
  exact ⟨first + second, by rw [steps?_add, early, Option.bind_some, late]⟩

theorem Leads.of_step? (step : moment.step? make = some later) : moment.Leads make later :=
  ⟨1, by rw [steps?, step]; rfl⟩

variable (make) in
/-- The machine comes to the outcome, before anything that waits for it has gone on. -/
def ComesTo (moment : Moment σ φ) (waiting : List (Frame φ)) : Outcome σ φ bound → Prop
  | .read piece rest here after _ =>
    moment.Leads make ⟨.handBack piece, waiting, rest, here, after⟩
  | .failed fault after =>
    ∃ later, moment.Leads make later ∧ later.task = .fail fault ∧ later.store = after

@[simp] theorem comesTo_widen {larger : Nat} (outcome : Outcome σ φ bound) (le : bound ≤ larger) :
    moment.ComesTo make waiting (outcome.widen le) ↔ moment.ComesTo make waiting outcome := by
  cases outcome <;> rfl

theorem Leads.comesTo {outcome : Outcome σ φ bound} (leads : moment.Leads make middle)
    (comes : middle.ComesTo make waiting outcome) : moment.ComesTo make waiting outcome := by
  cases outcome with
  | read piece rest here after shorter => exact leads.trans comes
  | failed fault after =>
    obtain ⟨later, late, failed⟩ := comes
    exact ⟨later, leads.trans late, failed⟩

theorem comesTo_of_step? {outcome : Outcome σ φ bound} (step : moment.step? make = some middle)
    (comes : middle.ComesTo make waiting outcome) : moment.ComesTo make waiting outcome :=
  (Leads.of_step? step).comesTo comes

end Moment

open Moment

variable (make) in
/-- To read a call at this place, the machine comes to the outcome, whatever waits. -/
def Performs (call : Call φ) (input : List Char) (position : Nat) (store : σ) {bound : Nat}
    (outcome : Outcome σ φ bound) : Prop :=
  ∀ waiting, (⟨.read call, waiting, input, position, store⟩ : Moment σ φ).ComesTo make waiting
    outcome

variable {input rest : List Char} {position here : Nat} {store after : σ} {bound larger : Nat}

/-- What waits for a piece is resumed with it. -/
theorem Performs.leads_resume {call : Call φ} {piece : φ} {shorter : rest.length < bound}
    (performs : Performs make call input position store
      (.read piece rest here after shorter : Outcome σ φ bound))
    (frame : Frame φ) (waiting : List (Frame φ)) :
    (⟨.read call, frame :: waiting, input, position, store⟩ : Moment σ φ).Leads make
      ((⟨.handBack piece, waiting, rest, here, after⟩ : Moment σ φ).resume make piece frame) :=
  (performs (frame :: waiting)).trans (.of_step? rfl)

/-! ## Atoms and factors -/

theorem performs_escaped (tail : List Char) (position : Nat) (store : σ) :
    Performs make .atom ('\\' :: tail) position store (escaped make tail position store) := by
  intro waiting
  apply comesTo_of_step? rfl
  cases tail with
  | nil => exact ⟨_, .of_step? rfl, rfl, rfl⟩
  | cons c tail => exact .of_step? rfl

theorem performs_close {tail : List Char} {inner : Outcome σ φ bound}
    (performs : Performs make .expression tail (position + 1) store inner) :
    Performs make .atom ('(' :: tail) position store (close inner position) := by
  intro waiting
  apply comesTo_of_step? rfl
  cases inner with
  | failed fault after => exact performs (.group position :: waiting)
  | read piece rest here after shorter =>
    have resumed := performs.leads_resume (.group position) waiting
    cases rest with
    | nil => exact ⟨_, resumed, rfl, rfl⟩
    | cons c tail =>
      by_cases closing : c = ')'
      · subst closing
        exact resumed
      · simp only [close, closing, if_false]
        refine ⟨_, resumed, ?_, ?_⟩ <;> simp [resume, closing, Moment.fail]

theorem performs_quantify {atom : Outcome σ φ bound}
    (performs : Performs make .atom input position store atom) :
    Performs make .factor input position store (quantify make atom) := by
  intro waiting
  apply comesTo_of_step? rfl
  cases atom with
  | failed fault after => exact performs (.operand :: waiting)
  | read piece rest here after shorter =>
    have resumed := performs.leads_resume .operand waiting
    cases rest with
    | nil => exact resumed
    | cons c tail =>
      simp only [resume] at resumed
      simp only [quantify]
      cases symbol : Quantifier.ofSymbol? c with
      | none =>
        rw [symbol] at resumed
        exact resumed
      | some q =>
        rw [symbol] at resumed
        exact resumed

/-! ## All rules -/

variable (make) in
/-- The machine performs each rule as the function of the rule does. -/
theorem performs_rules :
    (∀ input position store,
      Performs make .expression input position store (expression make input position store)) ∧
    (∀ piece input position store,
      Performs make (.alternatives piece) input position store
        (alternatives make piece input position store)) ∧
    (∀ input position store,
      Performs make .term input position store (term make input position store)) ∧
    (∀ piece input position store,
      Performs make (.factors piece) input position store
        (factors make piece input position store)) ∧
    (∀ input position store,
      Performs make .factor input position store (factor make input position store)) ∧
    (∀ input position store,
      Performs make .atom input position store (atom make input position store)) := by
  -- Over the calls of all six functions.
  apply expression.mutual_induct make
  -- An expression: a term, then the alternatives.
  · intro input position store fault after failed ihTerm waiting
    rw [failed] at ihTerm
    rw [expression, failed]
    exact comesTo_of_step? rfl (ihTerm (.firstTerm :: waiting))
  · intro input position store piece rest here after shorter read ihTerm ihRest waiting
    rw [read] at ihTerm
    rw [expression, read, comesTo_widen]
    exact comesTo_of_step? rfl ((ihTerm.leads_resume .firstTerm waiting).comesTo (ihRest waiting))
  -- The alternatives.
  · intro piece position store tail fault after failed ihTerm waiting
    rw [failed] at ihTerm
    rw [alternatives, failed]
    exact comesTo_of_step? rfl (ihTerm (.nextTerm piece :: waiting))
  · intro piece position store tail next rest here after shorter read built ihTerm ihRest waiting
    rw [read] at ihTerm
    rw [alternatives, read, comesTo_widen]
    exact comesTo_of_step? rfl
      ((ihTerm.leads_resume (.nextTerm piece) waiting).comesTo (ihRest waiting))
  · intro piece position store input noBar waiting
    rw [alternatives]
    · exact .of_step? (congrArg some (begin_alternatives_of_ne noBar))
    · exact noBar
  -- A term: a factor and more factors, or nothing.
  · intro input position store starts fault after failed ihFactor waiting
    rw [failed] at ihFactor
    rw [term, dif_pos starts, failed]
    exact comesTo_of_step? (congrArg some (if_pos starts)) (ihFactor (.firstFactor :: waiting))
  · intro input position store starts piece rest here after shorter read _ ihFactor ihRest waiting
    rw [read] at ihFactor
    rw [term, dif_pos starts, read, comesTo_widen]
    exact comesTo_of_step? (congrArg some (if_pos starts))
      ((ihFactor.leads_resume .firstFactor waiting).comesTo (ihRest waiting))
  · intro input position store stops waiting
    rw [term, dif_neg stops]
    exact .of_step? (congrArg some (if_neg stops))
  -- The factors.
  · intro piece input position store starts fault after failed ihFactor waiting
    rw [failed] at ihFactor
    rw [factors, dif_pos starts, failed]
    exact comesTo_of_step? (congrArg some (if_pos starts))
      (ihFactor (.nextFactor piece :: waiting))
  · intro piece input position store starts next rest here after shorter read _ built ihFactor
      ihRest waiting
    rw [read] at ihFactor
    rw [factors, dif_pos starts, read, comesTo_widen]
    exact comesTo_of_step? (congrArg some (if_pos starts))
      ((ihFactor.leads_resume (.nextFactor piece) waiting).comesTo (ihRest waiting))
  · intro piece input position store stops waiting
    rw [factors, dif_neg stops]
    exact .of_step? (congrArg some (if_neg stops))
  -- A factor, then the atoms.
  · intro input position store ihAtom
    rw [factor]
    exact performs_quantify ihAtom
  · intro position store waiting
    rw [atom]
    exact .of_step? rfl
  · intro position store tail waiting
    rw [atom, comesTo_widen]
    exact performs_escaped tail position store waiting
  · intro position store tail ihInner waiting
    rw [atom, comesTo_widen]
    exact performs_close ihInner waiting
  · intro position store c tail neEscape neOpen waiting
    rw [atom]
    · exact .of_step? (congrArg some (begin_atom_of_ne rfl neEscape neOpen))
    · exact neEscape
    · exact neOpen

end RegularPattern.Reader
