import RegularPattern.Proofs.Pattern.Derivation
import RegularPattern.Proofs.Pattern.Scan

/-!
# What the reader reads

Each function of the reader either finds a derivation of what it consumes, and builds what the
construction makes of that derivation, or fails with the fault that the scan of the brackets finds
in what it was given. The functions that extend a sequence do so for the sequence as a whole.

## Main definitions

* `Reader.Reading` — a derivation of what was read, and what was built of it.
* `Reader.Outcome.Reads` — the outcome is explained by a derivation or by the scan.
-/

namespace RegularPattern

namespace Reader

open RegularPattern.Tree

section

variable {σ φ : Type} {make : Construction σ φ}

/-- The tree derives the text `before`, which was read already, and the part of `input` before
`rest`. Positions are those of `input` and of `rest`; the store is that before the whole tree. -/
structure Reading (make : Construction σ φ) {rule : Rule} (tree : Tree rule)
    (before input : List Char) (position : Nat) (store : σ)
    (piece : φ) (rest : List Char) (here : Nat) (after : σ) : Prop where
  valid : tree.Valid
  follows : tree.Follows rest
  text_eq : before ++ input = tree.text ++ rest
  position_eq : here + before.length = position + tree.text.length
  build_eq : tree.build make store = (piece, after)

/-- What was read has a derivation, and a fault is the one that the scan finds, whatever groups
are open around. -/
def Outcome.Reads (make : Construction σ φ) (rule : Rule) (before input : List Char)
    (position : Nat) (store : σ) {bound : Nat} : Outcome σ φ bound → Prop
  | .read piece rest here after _ =>
    ∃ tree : Tree rule, Reading make tree before input position store piece rest here after
  | .failed fault _ => ∀ opened, Brackets.scan position opened input = some fault

variable {rule : Rule} {before input rest : List Char} {position here : Nat} {store : σ}
  {bound : Nat}

@[simp] theorem reads_widen {larger : Nat} (outcome : Outcome σ φ bound) (le : bound ≤ larger) :
    (outcome.widen le).Reads make rule before input position store ↔
      outcome.Reads make rule before input position store := by
  cases outcome <;> rfl

/-- What stands at the front of the input may as well have been read before. -/
theorem Outcome.Reads.shift {outcome : Outcome σ φ bound} {segment : List Char}
    (reads : outcome.Reads make rule (before ++ segment) rest here store)
    (split : input = segment ++ rest) (advance : here = position + segment.length)
    (scans : ∀ opened, Brackets.scan position opened (segment ++ rest) =
      Brackets.scan here opened rest) :
    outcome.Reads make rule before input position store := by
  subst split
  cases outcome with
  | read piece left there after =>
    obtain ⟨tree, valid, follows, texts, positions, build⟩ := reads
    refine ⟨tree, valid, follows, by simpa using texts, ?_, build⟩
    rw [List.length_append] at positions
    omega
  | failed fault =>
    intro opened
    rw [scans]
    exact reads opened

theorem Outcome.Reads.after_bar {outcome : Outcome σ φ bound}
    (reads : outcome.Reads make rule (before ++ ['|']) rest (position + 1) store) :
    outcome.Reads make rule before ('|' :: rest) position store :=
  reads.shift rfl rfl fun _ => rfl

theorem Outcome.Reads.after_reading {read : Rule} {tree : Tree read} {fresh after : σ} {piece : φ}
    {outcome : Outcome σ φ bound}
    (reads : outcome.Reads make rule (before ++ tree.text) rest here store)
    (reading : Reading make tree [] input position fresh piece rest here after) :
    outcome.Reads make rule before input position store := by
  have advance : here = position + tree.text.length := reading.position_eq
  refine reads.shift reading.text_eq advance ?_
  intro opened
  rw [advance]
  exact Brackets.scan_text tree reading.valid position opened rest

/-! ## Atoms and factors -/

theorem reads_escaped (tail : List Char) (position : Nat) (store : σ) :
    (escaped make tail position store).Reads make .atom [] ('\\' :: tail) position store := by
  cases tail with
  | nil => exact fun _ => rfl
  | cons c tail => exact ⟨.escaped c, trivial, trivial, rfl, rfl, rfl⟩

/-- An expression that ends before `rest` can only end before a closing parenthesis, or where the
input ends. -/
theorem eq_nil_or_close {tree : Tree .expression} (follows : tree.Follows rest) :
    rest = [] ∨ ∃ tail, rest = ')' :: tail := by
  obtain ⟨stops, noBar⟩ := follows
  cases rest with
  | nil => exact .inl rfl
  | cons c tail =>
    have neBar : c ≠ '|' := fun bar => noBar tail (by rw [bar])
    exact .inr ⟨tail, by simpa [startsFactor, neBar] using stops⟩

theorem reads_close {inner : Outcome σ φ bound} {tail : List Char}
    (reads : inner.Reads make .expression [] tail (position + 1) store) :
    (close inner position).Reads make .atom [] ('(' :: tail) position store := by
  cases inner with
  | failed fault after => exact fun opened => reads (position :: opened)
  | read piece rest here after shorter =>
    obtain ⟨tree, valid, follows, texts, positions, build⟩ := reads
    rcases eq_nil_or_close follows with rfl | ⟨left, rfl⟩
    · intro opened
      have scans := Brackets.scan_text tree valid (position + 1) (position :: opened) []
      rw [← texts] at scans
      exact scans
    · refine ⟨.group tree, valid, trivial, by simpa [text] using texts, ?_, build⟩
      simp only [text, List.length_append, List.length_cons, List.length_nil] at positions ⊢
      omega

theorem reads_quantify {atom : Outcome σ φ bound}
    (reads : atom.Reads make .atom [] input position store) :
    (quantify make atom).Reads make .factor [] input position store := by
  cases atom with
  | failed fault after => exact reads
  | read piece rest here after shorter =>
    obtain ⟨tree, valid, -, texts, positions, build⟩ := reads
    cases rest with
    | nil => exact ⟨.bare tree, valid, rfl, texts, positions, build⟩
    | cons c tail =>
      cases symbol : Quantifier.ofSymbol? c with
      | none =>
        have follows : (bare tree).Follows (c :: tail) := by
          simp [Follows, startsQuantified, symbol]
        simp only [quantify, symbol]
        exact ⟨.bare tree, valid, follows, texts, positions, build⟩
      | some q =>
        simp only [quantify, symbol]
        obtain rfl := Quantifier.ofSymbol?_eq_some_iff.mp symbol
        refine ⟨.quantified tree q, valid, trivial, by simpa [text] using texts, ?_, ?_⟩
        · simp only [text, List.length_append, List.length_cons, List.length_nil] at positions ⊢
          omega
        · simp only [Tree.build, build]

theorem reads_plain {c : Char} {tail : List Char} (starts : startsFactor (c :: tail) = true)
    (neEscape : c ≠ '\\') (neOpen : c ≠ '(') :
    (Outcome.read (make.literal c store).1 tail (position + 1) (make.literal c store).2
      (Nat.le_max_right ..) : Outcome σ φ (max 1 (tail.length + 1))).Reads
        make .atom [] (c :: tail) position store := by
  have neEnd : c ≠ ')' ∧ c ≠ '|' := by simpa [startsFactor] using starts
  exact ⟨.plain c, ⟨neEscape, neOpen, neEnd⟩, trivial, rfl, rfl, rfl⟩

/-! ## Sequences -/

variable (make) in
/-- Reading alternatives completes any expression that was built before them. -/
def CompletesExpression (piece : φ) (input : List Char) (position : Nat) (store : σ) : Prop :=
  ∀ (init : Tree .expression) (start : σ), init.Valid → startsFactor input = false →
    init.build make start = (piece, store) →
    (alternatives make piece input position store).Reads make .expression init.text input
      position start

variable (make) in
/-- Reading factors completes any term that was built before them and may go on with the input. -/
def CompletesTerm (piece : φ) (input : List Char) (position : Nat) (store : σ) : Prop :=
  ∀ (init : Tree .term) (last : Tree .factor) (start : σ), (append init last).Valid →
    (append init last).Continues input → (append init last).build make start = (piece, store) →
    (factors make piece input position store).Reads make .term (append init last).text input
      position start

theorem CompletesExpression.of_bar {tail : List Char} {piece next : φ} {after : σ}
    {tree : Tree .term} {shorter : rest.length < tail.length + 1}
    (read : term make tail (position + 1) store = .read next rest here after shorter)
    (reading : Reading make tree [] tail (position + 1) store next rest here after)
    (completes : CompletesExpression make (make.alternation piece next after).1 rest here
      (make.alternation piece next after).2) :
    CompletesExpression make piece ('|' :: tail) position store := by
  intro init start valid stops build
  have longer := completes (bar init tree) start ⟨valid, reading.valid⟩ reading.follows
    (by simp only [Tree.build, build, reading.build_eq])
  rw [alternatives, read, reads_widen]
  refine (Outcome.Reads.after_reading ?_ reading).after_bar
  simpa [text] using longer

theorem CompletesTerm.of_factor {piece next : φ} {after : σ} {tree : Tree .factor}
    {shorter : rest.length < max 1 input.length} (starts : startsFactor input = true)
    (read : factor make input position store = .read next rest here after shorter)
    (reading : Reading make tree [] input position store next rest here after)
    (completes : CompletesTerm make (make.concat piece next after).1 rest here
      (make.concat piece next after).2) :
    CompletesTerm make piece input position store := by
  intro init last start valid continues build
  have between : (append init last).Continues tree.text := by
    have split : input = tree.text ++ rest := reading.text_eq
    rw [split] at continues
    exact continues_text_iff.mp continues
  have longer := completes (append init last) tree start ⟨valid, reading.valid, between⟩
    (continues_append_iff.mpr reading.follows)
    (by rw [Tree.build, build]; simp only [reading.build_eq])
  rw [factors, dif_pos starts, read, reads_widen]
  exact longer.after_reading reading

variable (make) in
/-- What the reader makes of an expression is explained by a derivation or by the scan. -/
theorem reads_expression (input : List Char) (position : Nat) (store : σ) :
    (expression make input position store).Reads make .expression [] input position store := by
  revert input position store
  -- Over the calls of all six functions; the two loops complete whatever was read before them.
  apply (expression.mutual_induct make
    (fun input position store =>
      (expression make input position store).Reads make .expression [] input position store)
    (CompletesExpression make)
    (fun input position store =>
      (term make input position store).Reads make .term [] input position store)
    (CompletesTerm make)
    (fun input position store => startsFactor input = true →
      (factor make input position store).Reads make .factor [] input position store)
    (fun input position store => startsFactor input = true →
      (atom make input position store).Reads make .atom [] input position store)
    ?_ ?_ ?_ ?_ ?_ ?_ ?_ ?_ ?_ ?_ ?_ ?_ ?_ ?_ ?_ ?_).1
  -- An expression: a term, then the alternatives.
  · intro input position store fault after failed ihTerm
    rw [failed] at ihTerm
    rw [expression, failed]
    exact ihTerm
  · intro input position store piece rest here after shorter read ihTerm ihRest
    rw [read] at ihTerm
    obtain ⟨tree, reading⟩ := ihTerm
    rw [expression, read, reads_widen]
    exact (ihRest (single tree) store reading.valid reading.follows
      reading.build_eq).after_reading reading
  -- The alternatives.
  · intro piece position store tail fault after failed ihTerm init start valid stops build
    rw [failed] at ihTerm
    rw [alternatives, failed]
    exact ihTerm
  · intro piece position store tail next rest here after shorter read _ ihTerm ihRest
    rw [read] at ihTerm
    obtain ⟨tree, reading⟩ := ihTerm
    exact .of_bar read reading ihRest
  · intro piece position store input noBar init start valid stops build
    rw [alternatives]
    · exact ⟨init, valid, ⟨stops, fun tail bar => noBar tail bar⟩, rfl, rfl, build⟩
    · exact noBar
  -- A term: a factor and more factors, or nothing.
  · intro input position store starts fault after failed ihFactor
    have failure := ihFactor starts
    rw [failed] at failure
    rw [term, dif_pos starts, failed]
    exact failure
  · intro input position store starts piece rest here after shorter read _ ihFactor ihRest
    have success := ihFactor starts
    rw [read] at success
    obtain ⟨tree, reading⟩ := success
    have longer := ihRest nothing tree store ⟨trivial, reading.valid, nofun⟩
      (continues_append_iff.mpr reading.follows) reading.build_eq
    rw [term, dif_pos starts, read, reads_widen]
    exact longer.after_reading reading
  · intro input position store stops
    rw [term, dif_neg stops]
    exact ⟨nothing, trivial, Bool.eq_false_iff.mpr stops, rfl, rfl, rfl⟩
  -- The factors.
  · intro piece input position store starts fault after failed ihFactor init last start valid
      continues build
    have failure := ihFactor starts
    rw [failed] at failure
    rw [factors, dif_pos starts, failed]
    exact failure
  · intro piece input position store starts next rest here after shorter read _ _ ihFactor ihRest
    have success := ihFactor starts
    rw [read] at success
    obtain ⟨tree, reading⟩ := success
    exact .of_factor starts read reading ihRest
  · intro piece input position store stops init last start valid continues build
    rw [factors, dif_neg stops]
    exact ⟨append init last, valid, Bool.eq_false_iff.mpr stops, rfl, rfl, build⟩
  -- A factor, then the atoms.
  · intro input position store ihAtom starts
    rw [factor]
    exact reads_quantify (ihAtom starts)
  · intro position store starts
    cases starts
  · intro position store tail starts
    rw [atom, reads_widen]
    exact reads_escaped tail position store
  · intro position store tail ihInner starts
    rw [atom, reads_widen]
    exact reads_close ihInner
  · intro position store c tail neEscape neOpen starts
    rw [atom]
    · exact reads_plain starts neEscape neOpen
    · exact neEscape
    · exact neOpen

end

end Reader

/-! ## Whole patterns -/

open Reader

theorem Tree.Derives.fault?_eq_none {tree : Tree .expression} {pattern : List Char}
    (derives : tree.Derives pattern) : Brackets.fault? pattern = none := by
  have scans := Brackets.scan_text tree derives.valid 0 [] []
  rw [List.append_nil, derives.text_eq] at scans
  exact scans

/-- A pattern has a derivation, from which the reader builds, or else a fault, with which the
reader fails. -/
theorem Construction.read_cases {σ φ : Type} (make : Construction σ φ) (pattern : List Char)
    (store : σ) :
    (∃ tree : Tree .expression, tree.Derives pattern ∧
      make.read pattern store = (.ok (tree.build make store).1, (tree.build make store).2)) ∨
    (∃ fault, Brackets.fault? pattern = some fault ∧
      (make.read pattern store).1 = .error fault) := by
  have reads := reads_expression make pattern 0 store
  unfold Construction.read
  cases outcome : expression make pattern 0 store with
  | failed fault after =>
    rw [outcome] at reads
    exact .inr ⟨fault, reads [], rfl⟩
  | read piece rest here after shorter =>
    rw [outcome] at reads
    obtain ⟨tree, reading⟩ := reads
    have advance : here = 0 + tree.text.length := reading.position_eq
    have split : pattern = tree.text ++ rest := reading.text_eq
    rcases eq_nil_or_close reading.follows with rfl | ⟨left, rfl⟩
    · refine .inl ⟨tree, ⟨reading.valid, by simpa using split.symm⟩, ?_⟩
      rw [reading.build_eq]
    · refine .inr ⟨⟨.trailingInput, here⟩, ?_, rfl⟩
      rw [Brackets.fault?, split, Brackets.scan_text tree reading.valid, ← advance]
      rfl

theorem exists_derives_iff {pattern : List Char} :
    (∃ tree : Tree .expression, tree.Derives pattern) ↔ Brackets.fault? pattern = none := by
  constructor
  · rintro ⟨tree, derives⟩
    exact derives.fault?_eq_none
  · intro faultless
    rcases Regex.construction.read_cases pattern () with ⟨tree, derives, -⟩ | ⟨fault, found, -⟩
    · exact ⟨tree, derives⟩
    · simp [faultless] at found

/-- A pattern that has a derivation is read as that derivation. -/
theorem Tree.Derives.read_eq {tree : Tree .expression} {pattern : List Char}
    (derives : tree.Derives pattern) {σ φ : Type} (make : Construction σ φ) (store : σ) :
    make.read pattern store = (.ok (tree.build make store).1, (tree.build make store).2) := by
  rcases make.read_cases pattern store with ⟨other, derives', read⟩ | ⟨fault, found, -⟩
  · rw [derives.unique derives']
    exact read
  · simp [derives.fault?_eq_none] at found

/-- A faulty pattern is refused with its fault. -/
theorem Construction.read_of_fault? {σ φ : Type} (make : Construction σ φ) {pattern : List Char}
    {fault : Fault} (found : Brackets.fault? pattern = some fault) (store : σ) :
    (make.read pattern store).1 = .error fault := by
  rcases make.read_cases pattern store with ⟨tree, derives, -⟩ | ⟨other, found', read⟩
  · simp [derives.fault?_eq_none] at found
  · rw [found] at found'
    rw [read, Option.some.inj found']

end RegularPattern
