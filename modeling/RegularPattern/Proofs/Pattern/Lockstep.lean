import RegularPattern.Pattern.Reader

/-!
# Two constructions in step

The reader decides by the pattern alone what to build next. Two constructions that agree on all
pieces that can come up, up to the names of the pieces, therefore stay in step over a whole
pattern, and over the part of a faulty pattern that is read before the fault.

## Main definitions

* `Construction.Lockstep` — operation by operation, two constructions make the same.
* `Reader.Outcome.InStep` — two outcomes are the same, up to their pieces and stores.
* `Reader.Outcome.map` — an outcome with another piece and another store.
-/

namespace RegularPattern

variable {σ τ φ ψ : Type} {make : Construction σ φ} {other : Construction τ ψ} {rename : φ → ψ}
  {carry : σ → τ} {Ready : σ → Prop} {Made : σ → σ → φ → Prop}

namespace Construction

/-- Two results are the same piece under two names, and `carry` leads from one store to the
other. -/
structure Agree (rename : φ → ψ) (carry : σ → τ) (Made : σ → φ → Prop) (result : φ × σ)
    (result' : ψ × τ) : Prop where
  made : Made result.2 result.1
  eq : result' = (rename result.1, carry result.2)

/-- What one construction makes in a store, another one makes in the store that `carry` gives, of
pieces that `rename` gives. This is asked only for operands that can come up: `Made before after
piece` says that the piece is all that was made from one store to the other, and a store is `Ready`
if something can be made there. -/
structure Lockstep (make : Construction σ φ) (other : Construction τ ψ) (rename : φ → ψ)
    (carry : σ → τ) (Ready : σ → Prop) (Made : σ → σ → φ → Prop) : Prop where
  ready : ∀ {before after piece}, Made before after piece → Ready after
  empty : ∀ {store}, Ready store →
    Agree rename carry (Made store) (make.empty store) (other.empty (carry store))
  literal : ∀ c {store}, Ready store →
    Agree rename carry (Made store) (make.literal c store) (other.literal c (carry store))
  concat : ∀ {before middle after first second},
    Made before middle first → Made middle after second →
    Agree rename carry (Made before) (make.concat first second after)
      (other.concat (rename first) (rename second) (carry after))
  alternation : ∀ {before middle after left right},
    Made before middle left → Made middle after right →
    Agree rename carry (Made before) (make.alternation left right after)
      (other.alternation (rename left) (rename right) (carry after))
  quantified : ∀ q {before after operand}, Made before after operand →
    Agree rename carry (Made before) (make.quantified q operand after)
      (other.quantified q (rename operand) (carry after))

end Construction

namespace Reader

open Construction

/-- Two outcomes are the same, `rename` and `carry` lead from one piece and store to the other, and
what was read is one piece. -/
def Outcome.InStep (rename : φ → ψ) (carry : σ → τ) (Made : σ → φ → Prop) {bound : Nat}
    (outcome' : Outcome τ ψ bound) : Outcome σ φ bound → Prop
  | .read piece rest here after shorter =>
    Made after piece ∧ outcome' = .read (rename piece) rest here (carry after) shorter
  | .failed fault after => outcome' = .failed fault (carry after)

/-- The same outcome with another piece and another store. -/
def Outcome.map (rename : φ → ψ) (carry : σ → τ) {bound : Nat} :
    Outcome σ φ bound → Outcome τ ψ bound
  | .read piece rest here after shorter => .read (rename piece) rest here (carry after) shorter
  | .failed fault after => .failed fault (carry after)

variable {start store : σ} {bound larger : Nat}

theorem Outcome.InStep.eq_map {Kept : σ → φ → Prop} {outcome : Outcome σ φ bound}
    {outcome' : Outcome τ ψ bound} (inStep : outcome'.InStep rename carry Kept outcome) :
    outcome' = outcome.map rename carry := by
  cases outcome with
  | failed fault after => exact inStep
  | read piece rest here after shorter => exact inStep.2

theorem Outcome.InStep.widen {outcome : Outcome σ φ bound} {outcome' : Outcome τ ψ bound}
    (inStep : outcome'.InStep rename carry (Made start) outcome) (le : bound ≤ larger) :
    (outcome'.widen le).InStep rename carry (Made start) (outcome.widen le) := by
  cases outcome with
  | failed fault after =>
    obtain rfl := inStep
    rfl
  | read piece rest here after shorter =>
    obtain ⟨made, rfl⟩ := inStep
    exact ⟨made, rfl⟩

theorem inStep_of_agree {result : φ × σ} {result' : ψ × τ}
    (agree : Agree rename carry (Made start) result result') (rest : List Char) (here : Nat)
    (shorter : rest.length < bound) :
    (Outcome.read result'.1 rest here result'.2 shorter).InStep rename carry (Made start)
      (Outcome.read result.1 rest here result.2 shorter) := by
  obtain ⟨made, rfl⟩ := agree
  exact ⟨made, rfl⟩

variable (step : Lockstep make other rename carry Ready Made)

include step

/-! ## Atoms and factors -/

theorem inStep_escaped (ready : Ready store) (input : List Char) (position : Nat) :
    (escaped other input position (carry store)).InStep rename carry (Made store)
      (escaped make input position store) := by
  cases input with
  | nil => rfl
  | cons c tail => exact inStep_of_agree (step.literal (unescape c) ready) tail _ _

omit step in
theorem inStep_close {inner : Outcome σ φ bound} {inner' : Outcome τ ψ bound}
    (inStep : inner'.InStep rename carry (Made start) inner) (position : Nat) :
    (close inner' position).InStep rename carry (Made start) (close inner position) := by
  cases inner with
  | failed fault after =>
    obtain rfl := inStep
    rfl
  | read piece rest here after shorter =>
    obtain ⟨made, rfl⟩ := inStep
    cases rest with
    | nil => rfl
    | cons c tail =>
      by_cases closing : c = ')'
      · simp only [close, closing, if_true]
        exact ⟨made, rfl⟩
      · simp only [close, closing, if_false]
        rfl

theorem inStep_quantify {atom : Outcome σ φ bound} {atom' : Outcome τ ψ bound}
    (inStep : atom'.InStep rename carry (Made start) atom) :
    (quantify other atom').InStep rename carry (Made start) (quantify make atom) := by
  cases atom with
  | failed fault after =>
    obtain rfl := inStep
    rfl
  | read piece rest here after shorter =>
    obtain ⟨made, rfl⟩ := inStep
    cases rest with
    | nil => exact ⟨made, rfl⟩
    | cons c tail =>
      simp only [quantify]
      cases Quantifier.ofSymbol? c with
      | none => exact ⟨made, rfl⟩
      | some q => exact inStep_of_agree (step.quantified q made) tail _ _

/-! ## All rules -/

/-- The outcomes for each rule are the same, whether it can be read or not. -/
theorem inStep_rules :
    (∀ input position store, Ready store →
      (expression other input position (carry store)).InStep rename carry (Made store)
        (expression make input position store)) ∧
    (∀ piece input position store start, Made start store piece →
      (alternatives other (rename piece) input position (carry store)).InStep rename carry
        (Made start) (alternatives make piece input position store)) ∧
    (∀ input position store, Ready store →
      (term other input position (carry store)).InStep rename carry (Made store)
        (term make input position store)) ∧
    (∀ piece input position store start, Made start store piece →
      (factors other (rename piece) input position (carry store)).InStep rename carry
        (Made start) (factors make piece input position store)) ∧
    (∀ input position store, Ready store →
      (factor other input position (carry store)).InStep rename carry (Made store)
        (factor make input position store)) ∧
    (∀ input position store, Ready store →
      (atom other input position (carry store)).InStep rename carry (Made store)
        (atom make input position store)) := by
  -- Over the calls of all six functions; the two loops go on from a piece that was made before.
  apply expression.mutual_induct make
  -- An expression: a term, then the alternatives.
  · intro input position store fault after failed ihTerm ready
    have same := ihTerm ready
    rw [failed] at same
    rw [expression, expression, failed, same]
    rfl
  · intro input position store piece rest here after shorter read ihTerm ihRest ready
    have same := ihTerm ready
    rw [read] at same
    obtain ⟨made, read'⟩ := same
    rw [expression, expression, read, read']
    exact (ihRest store made).widen _
  -- The alternatives.
  · intro piece position store tail fault after failed ihTerm start made
    have same := ihTerm (step.ready made)
    rw [failed] at same
    rw [alternatives, alternatives, failed, same]
    rfl
  · intro piece position store tail next rest here after shorter read built ihTerm ihRest start made
    have same := ihTerm (step.ready made)
    rw [read] at same
    obtain ⟨madeNext, read'⟩ := same
    obtain ⟨madeBoth, eq⟩ := step.alternation made madeNext
    rw [alternatives, alternatives, read, read']
    simp only [eq]
    exact (ihRest start madeBoth).widen _
  · intro piece position store input noBar start made
    rw [alternatives, alternatives]
    · exact ⟨made, rfl⟩
    · exact noBar
    · exact noBar
  -- A term: a factor and more factors, or nothing.
  · intro input position store starts fault after failed ihFactor ready
    have same := ihFactor ready
    rw [failed] at same
    rw [term, term, dif_pos starts, dif_pos starts, failed, same]
    rfl
  · intro input position store starts piece rest here after shorter read _ ihFactor ihRest ready
    have same := ihFactor ready
    rw [read] at same
    obtain ⟨made, read'⟩ := same
    rw [term, term, dif_pos starts, dif_pos starts, read, read']
    exact (ihRest store made).widen _
  · intro input position store stops ready
    rw [term, term, dif_neg stops, dif_neg stops]
    exact inStep_of_agree (step.empty ready) input _ _
  -- The factors.
  · intro piece input position store starts fault after failed ihFactor start made
    have same := ihFactor (step.ready made)
    rw [failed] at same
    rw [factors, factors, dif_pos starts, dif_pos starts, failed, same]
    rfl
  · intro piece input position store starts next rest here after shorter read _ built ihFactor
      ihRest start made
    have same := ihFactor (step.ready made)
    rw [read] at same
    obtain ⟨madeNext, read'⟩ := same
    obtain ⟨madeBoth, eq⟩ := step.concat made madeNext
    rw [factors, factors, dif_pos starts, dif_pos starts, read, read']
    simp only [eq]
    exact (ihRest start madeBoth).widen _
  · intro piece input position store stops start made
    rw [factors, factors, dif_neg stops, dif_neg stops]
    exact ⟨made, rfl⟩
  -- A factor, then the atoms.
  · intro input position store ihAtom ready
    rw [factor, factor]
    exact inStep_quantify step (ihAtom ready)
  · intro position store ready
    rw [atom, atom]
    exact inStep_of_agree (step.empty ready) [] _ _
  · intro position store tail ready
    rw [atom, atom]
    exact (inStep_escaped step ready tail position).widen _
  · intro position store tail ihInner ready
    rw [atom, atom]
    exact (inStep_close (ihInner ready) position).widen _
  · intro position store c tail neEscape neOpen ready
    rw [atom, atom]
    · exact inStep_of_agree (step.literal c ready) tail _ _
    · exact neEscape
    · exact neOpen
    · exact neEscape
    · exact neOpen

theorem inStep_expression (input : List Char) (position : Nat) (store : σ) (ready : Ready store) :
    (expression other input position (carry store)).InStep rename carry (Made store)
      (expression make input position store) :=
  (inStep_rules step).1 input position store ready

end Reader

/-- Constructions in step read every pattern alike, be it faulty or not. -/
theorem Construction.Lockstep.read_eq (step : make.Lockstep other rename carry Ready Made)
    (pattern : List Char) {store : σ} (ready : Ready store) :
    other.read pattern (carry store) =
      ((make.read pattern store).1.map rename, carry (make.read pattern store).2) := by
  have inStep := Reader.inStep_expression step pattern 0 store ready
  unfold Construction.read
  cases outcome : Reader.expression make pattern 0 store with
  | failed fault after =>
    rw [outcome] at inStep
    rw [inStep]
    rfl
  | read piece rest here after shorter =>
    rw [outcome] at inStep
    obtain ⟨-, read'⟩ := inStep
    rw [read']
    cases rest <;> rfl

end RegularPattern
