import RegularPattern.Pattern.Tree

/-!
# Derivations are unique

Two valid derivations of one rule that begin the same text, each followed by something that cannot
belong to it, are the same. Sequences grow at their right end while a text is read from its left,
so two sequences that begin the same text are first only compared: one of them goes on from where
the other one stops.

## Main definitions

* `Tree.Derives` — a valid derivation of a text.
* `Tree.Follows` — what may stand behind a derivation without belonging to it.
* `Tree.Comparable` — two sequences of which one continues the other.
-/

namespace RegularPattern.Tree

open Reader

/-- A valid derivation of a text. -/
structure Derives {rule : Rule} (tree : Tree rule) (pattern : List Char) : Prop where
  valid : tree.Valid
  text_eq : tree.text = pattern

/-! ## How texts of derivations begin -/

theorem startsFactor_atom {atom : Tree .atom} (valid : atom.Valid) (rest : List Char) :
    startsFactor (atom.text ++ rest) = true := by
  cases atom with
  | plain c => simpa [text, startsFactor] using valid.2.2
  | escaped c => rfl
  | group inner => rfl

theorem startsFactor_factor {factor : Tree .factor} (valid : factor.Valid) (rest : List Char) :
    startsFactor (factor.text ++ rest) = true := by
  cases factor with
  | bare atom => exact startsFactor_atom valid rest
  | quantified atom q =>
    rw [text, List.append_assoc]
    exact startsFactor_atom valid _

theorem text_factor_ne_nil (factor : Tree .factor) : factor.text ≠ [] := by
  cases factor with
  | bare atom => cases atom <;> simp [text]
  | quantified => simp [text]

theorem startsQuantified_append {first : List Char} (ne : first ≠ []) (rest : List Char) :
    startsQuantified (first ++ rest) = startsQuantified first := by
  cases first with
  | nil => exact absurd rfl ne
  | cons => rfl

theorem startsFactor_of_startsQuantified {rest : List Char}
    (starts : startsQuantified rest = true) : startsFactor rest = true := by
  cases rest with
  | nil => exact starts
  | cons c tail =>
    obtain ⟨q, found⟩ := Option.isSome_iff_exists.mp starts
    obtain rfl := Quantifier.ofSymbol?_eq_some_iff.mp found
    cases q <;> rfl

/-! ## What may follow -/

/-- What may stand behind a derivation without belonging to it. -/
def Follows : {rule : Rule} → Tree rule → List Char → Prop
  | .atom, _, _ => True
  | .factor, bare _, rest => startsQuantified rest = false
  | .factor, quantified _ _, _ => True
  | .term, _, rest => startsFactor rest = false
  | .expression, _, rest => startsFactor rest = false ∧ ∀ tail, rest ≠ '|' :: tail

/-- A term may go on with the text, as far as its last factor is concerned. -/
def Continues (term : Tree .term) (rest : List Char) : Prop :=
  term.endsBare = true → startsQuantified rest = false

theorem continues_append_iff {init : Tree .term} {last : Tree .factor} {rest : List Char} :
    (append init last).Continues rest ↔ last.Follows rest := by
  cases last <;> simp [Continues, endsBare, Follows]

theorem continues_text_iff {term : Tree .term} {factor : Tree .factor} {rest : List Char} :
    term.Continues (factor.text ++ rest) ↔ term.Continues factor.text := by
  rw [Continues, startsQuantified_append (text_factor_ne_nil factor), Continues]

theorem Continues.of_stops (term : Tree .term) {rest : List Char}
    (stops : startsFactor rest = false) : term.Continues rest := by
  intro _
  cases starts : startsQuantified rest with
  | false => rfl
  | true =>
    rw [startsFactor_of_startsQuantified starts] at stops
    cases stops

/-! ## Sequences from their first element on -/

theorem text_foldl_append (term : Tree .term) (more : List (Tree .factor)) :
    (more.foldl append term).text = term.text ++ more.flatMap text := by
  induction more generalizing term with
  | nil => simp
  | cons factor more ih => simp [ih, text]

theorem exists_factors (term : Tree .term) :
    ∃ factors : List (Tree .factor), term = factors.foldl append nothing := by
  match term with
  | nothing => exact ⟨[], rfl⟩
  | append init last =>
    obtain ⟨factors, same⟩ := exists_factors init
    exact ⟨factors ++ [last], by simp [← same]⟩

theorem valid_of_valid_foldl {term : Tree .term} {more : List (Tree .factor)}
    (valid : (more.foldl append term).Valid) : term.Valid ∧ ∀ factor ∈ more, factor.Valid := by
  induction more generalizing term with
  | nil => exact ⟨valid, by simp⟩
  | cons factor more ih =>
    obtain ⟨longer, others⟩ := ih valid
    exact ⟨longer.1, List.forall_mem_cons.mpr ⟨longer.2.1, others⟩⟩

/-- The text of a term behind a bar. -/
def barred (term : Tree .term) : List Char :=
  '|' :: term.text

theorem text_foldl_bar (expression : Tree .expression) (more : List (Tree .term)) :
    (more.foldl bar expression).text = expression.text ++ more.flatMap barred := by
  induction more generalizing expression with
  | nil => simp
  | cons term more ih => simp [ih, text, barred]

theorem exists_terms (expression : Tree .expression) :
    ∃ (first : Tree .term) (more : List (Tree .term)),
      expression = more.foldl bar (single first) := by
  match expression with
  | single term => exact ⟨term, [], rfl⟩
  | bar init last =>
    obtain ⟨first, more, same⟩ := exists_terms init
    exact ⟨first, more ++ [last], by simp [← same]⟩

theorem valid_foldl_bar_iff {expression : Tree .expression} {more : List (Tree .term)} :
    (more.foldl bar expression).Valid ↔ expression.Valid ∧ ∀ term ∈ more, term.Valid := by
  induction more generalizing expression with
  | nil => simp
  | cons term more ih =>
    rw [List.foldl_cons, ih, Valid, List.forall_mem_cons, and_assoc]

theorem startsFactor_barred (more : List (Tree .term)) {rest : List Char}
    (stops : startsFactor rest = false) : startsFactor (more.flatMap barred ++ rest) = false := by
  cases more with
  | nil => exact stops
  | cons term more => rfl

theorem Continues.of_foldl {term : Tree .term} {more : List (Tree .factor)} {rest : List Char}
    (valid : (more.foldl append term).Valid) (continues : (more.foldl append term).Continues rest) :
    term.Continues (more.flatMap text ++ rest) := by
  cases more with
  | nil => exact continues
  | cons factor more =>
    have longer : (more.foldl append (append term factor)).Valid := valid
    rw [List.flatMap_cons, List.append_assoc, continues_text_iff]
    exact (valid_of_valid_foldl longer).1.2.2

/-! ## Comparing sequences -/

/-- Of two sequences, each with what stands behind it, one continues the other. -/
def Comparable {α β : Type} (snoc : α → β → α) (text : β → List Char)
    (first : α) (rest : List Char) (second : α) (rest' : List Char) : Prop :=
  (∃ more : List β, second = more.foldl snoc first ∧ rest = more.flatMap text ++ rest') ∨
    (∃ more : List β, first = more.foldl snoc second ∧ rest' = more.flatMap text ++ rest)

namespace Comparable

variable {α β : Type} {snoc : α → β → α} {text : β → List Char} {first second : α}
  {rest rest' : List Char}

/-- Comparable sequences stay comparable when one grows, if what it grows by is determined. -/
theorem grow {last : β} (comparable : Comparable snoc text first (text last ++ rest) second rest')
    (determined : ∀ (other : β) (more : List β), second = more.foldl snoc (snoc first other) →
      text last ++ rest = text other ++ (more.flatMap text ++ rest') →
      last = other ∧ rest = more.flatMap text ++ rest') :
    Comparable snoc text (snoc first last) rest second rest' := by
  rcases comparable with ⟨more, rfl, same⟩ | ⟨more, rfl, same⟩
  · cases more with
    | nil => exact Or.inr ⟨[last], rfl, by simpa using same.symm⟩
    | cons other more =>
      obtain ⟨rfl, rests⟩ := determined other more rfl (by simpa using same)
      exact Or.inl ⟨more, rfl, rests⟩
  · exact Or.inr ⟨more ++ [last], by simp, by simp [same]⟩

/-- Where neither sequence can go on, they are the same. -/
theorem eq (comparable : Comparable snoc text first rest second rest')
    (stops : ∀ piece more, second = (piece :: more).foldl snoc first →
      rest ≠ text piece ++ (more.flatMap text ++ rest'))
    (stops' : ∀ piece more, first = (piece :: more).foldl snoc second →
      rest' ≠ text piece ++ (more.flatMap text ++ rest)) :
    first = second ∧ rest = rest' := by
  rcases comparable with ⟨more, longer, same⟩ | ⟨more, longer, same⟩
  · cases more with
    | nil => exact ⟨longer.symm, same⟩
    | cons piece more => exact absurd (by simpa using same) (stops piece more longer)
  · cases more with
    | nil => exact ⟨longer, same.symm⟩
    | cons piece more => exact absurd (by simpa using same) (stops' piece more longer)

end Comparable

/-! ## Uniqueness -/

/-- A derivation is determined by any text that begins with its own and goes on in a way that does
not belong to it. Terms and expressions are compared first, wherever they may go on. -/
def Determined : {rule : Rule} → Tree rule → Prop
  | .atom, tree => ∀ other : Tree .atom, other.Valid → ∀ rest rest',
      tree.text ++ rest = other.text ++ rest' → tree = other ∧ rest = rest'
  | .factor, tree => ∀ other : Tree .factor, other.Valid → ∀ rest rest', tree.Follows rest →
      other.Follows rest' → tree.text ++ rest = other.text ++ rest' → tree = other ∧ rest = rest'
  | .term, tree => ∀ other : Tree .term, other.Valid → ∀ rest rest', tree.Continues rest →
      other.Continues rest' → tree.text ++ rest = other.text ++ rest' →
      Comparable append text tree rest other rest'
  | .expression, tree => ∀ other : Tree .expression, other.Valid → ∀ rest rest',
      startsFactor rest = false → startsFactor rest' = false →
      tree.text ++ rest = other.text ++ rest' →
      Comparable bar barred tree rest other rest'

/-- Comparable terms that both end here are the same. -/
theorem Comparable.eq_of_stops {term other : Tree .term} {rest rest' : List Char}
    (comparable : Comparable append text term rest other rest')
    (valid : term.Valid) (valid' : other.Valid)
    (stops : startsFactor rest = false) (stops' : startsFactor rest' = false) :
    term = other ∧ rest = rest' := by
  have absurd_of {shorter : Tree .term} {left : List Char} {piece : Tree .factor}
      {more : List (Tree .factor)} {right : List Char}
      (valid : ((piece :: more).foldl append shorter).Valid) (stops : startsFactor left = false) :
      left ≠ piece.text ++ right := by
    rintro rfl
    rw [startsFactor_factor ((valid_of_valid_foldl valid).2 piece List.mem_cons_self)] at stops
    cases stops
  apply comparable.eq
  · rintro piece more rfl
    exact absurd_of valid' stops
  · rintro piece more rfl
    exact absurd_of valid stops'

theorem determined {rule : Rule} (tree : Tree rule) (valid : tree.Valid) : tree.Determined := by
  induction tree with
  | plain c =>
    intro other valid' rest rest' same
    cases other with
    | plain d => simpa [text] using same
    | escaped d => exact absurd (by simpa [text] using congrArg List.head? same) valid.1
    | group inner => exact absurd (by simpa [text] using congrArg List.head? same) valid.2.1
  | escaped c =>
    intro other valid' rest rest' same
    cases other with
    | plain d => exact absurd (by simpa [text] using (congrArg List.head? same).symm) valid'.1
    | escaped d => simpa [text] using same
    | group inner => simp [text] at same
  | group inner ih =>
    intro other valid' rest rest' same
    cases other with
    | plain d => exact absurd (by simpa [text] using (congrArg List.head? same).symm) valid'.2.1
    | escaped d => simp [text] at same
    | group inner' =>
      have comparable := ih valid inner' valid' (')' :: rest) (')' :: rest') rfl rfl
        (by simpa [text] using same)
      obtain ⟨rfl, rests⟩ := comparable.eq (by simp [barred]) (by simp [barred])
      exact ⟨rfl, List.tail_eq_of_cons_eq rests⟩
  | bare atom ih =>
    intro other valid' rest rest' follows follows' same
    cases other with
    | bare atom' =>
      obtain ⟨rfl, rests⟩ := ih valid atom' valid' rest rest' same
      exact ⟨rfl, rests⟩
    | quantified atom' q =>
      obtain ⟨rfl, rfl⟩ := ih valid atom' valid' rest (q.symbol :: rest')
        (by simpa [text] using same)
      simp [Follows, startsQuantified] at follows
  | quantified atom q ih =>
    intro other valid' rest rest' follows follows' same
    cases other with
    | bare atom' =>
      obtain ⟨rfl, rfl⟩ := ih valid atom' valid' (q.symbol :: rest) rest'
        (by simpa [text] using same)
      simp [Follows, startsQuantified] at follows'
    | quantified atom' q' =>
      obtain ⟨rfl, rests⟩ := ih valid atom' valid' (q.symbol :: rest) (q'.symbol :: rest')
        (by simpa [text] using same)
      obtain ⟨symbols, rfl⟩ := List.cons.inj rests
      obtain rfl : q = q' := by
        simpa using congrArg Quantifier.ofSymbol? symbols
      exact ⟨rfl, rfl⟩
  | nothing =>
    intro other valid' rest rest' continues continues' same
    obtain ⟨factors, rfl⟩ := exists_factors other
    exact Or.inl ⟨factors, rfl, by simpa [text_foldl_append, text] using same⟩
  | append init last ihInit ihLast =>
    intro other valid' rest rest' continues continues' same
    obtain ⟨validInit, validLast, between⟩ := valid
    have comparable := ihInit validInit other valid' (last.text ++ rest) rest'
      (continues_text_iff.mpr between) continues' (by simpa [text] using same)
    apply comparable.grow
    rintro factor more rfl same
    have longer := valid_of_valid_foldl valid'
    exact ihLast validLast factor longer.1.2.1 rest _ (continues_append_iff.mp continues)
      (continues_append_iff.mp (.of_foldl valid' continues')) same
  | single term ih =>
    intro other valid' rest rest' stops stops' same
    obtain ⟨first, more, rfl⟩ := exists_terms other
    have validFirst : first.Valid := (valid_foldl_bar_iff.mp valid').1
    have stopsFirst := startsFactor_barred more stops'
    have comparable := ih valid first validFirst rest (more.flatMap barred ++ rest')
      (.of_stops term stops) (.of_stops first stopsFirst)
      (by simpa [text_foldl_bar, text] using same)
    obtain ⟨rfl, rests⟩ := comparable.eq_of_stops valid validFirst stops stopsFirst
    exact Or.inl ⟨more, rfl, rests⟩
  | bar init last ihInit ihLast =>
    intro other valid' rest rest' stops stops' same
    have comparable := ihInit valid.1 other valid' (barred last ++ rest) rest' rfl stops'
      (by simpa [text, barred] using same)
    apply comparable.grow
    rintro term more rfl same
    have validTerm : term.Valid := (valid_foldl_bar_iff.mp valid').1.2
    have stopsTerm := startsFactor_barred more stops'
    have comparable := ihLast valid.2 term validTerm rest _ (.of_stops last stops)
      (.of_stops term stopsTerm) (by simpa [barred] using same)
    exact comparable.eq_of_stops valid.2 validTerm stops stopsTerm

/-- A pattern has at most one derivation. -/
theorem Derives.unique {tree other : Tree .expression} {pattern : List Char}
    (derives : tree.Derives pattern) (derives' : other.Derives pattern) : tree = other := by
  have comparable := tree.determined derives.valid other derives'.valid [] [] rfl rfl
    (by rw [derives.text_eq, derives'.text_eq])
  exact (comparable.eq (by simp [barred]) (by simp [barred])).1

theorem Derives.iff_eq {tree : Tree .expression} {pattern : List Char}
    (derives : tree.Derives pattern) (other : Tree .expression) :
    other.Derives pattern ↔ other = tree := by
  constructor
  · exact fun derives' => derives'.unique derives
  · rintro rfl
    exact derives

end RegularPattern.Tree
