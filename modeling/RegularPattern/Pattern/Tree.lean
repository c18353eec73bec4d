import RegularPattern.Pattern.Reader

/-!
# The grammar of patterns

Derivations of the grammar that the reader follows, as data: a tree for each rule, with the text
that it derives and with what a construction makes of it, operands from left to right before their
operation. Sequences of factors and of alternatives grow at their right end, as they are combined.

The grammar is ambiguous only where a quantifier symbol could also be an atom. A tree is valid if
such a symbol behind an atom is always read as its quantifier.

## Main definitions

* `Rule`, `Tree` — the rules, and the derivations of each.
* `Tree.text` — the pattern that a tree derives.
* `Tree.Valid` — trees that take each character for what the grammar says.
* `Tree.build` — what a construction makes of a tree.
* `Regex.construction`, `Tree.regex` — the expression that a tree stands for.
-/

namespace RegularPattern

/-- The rules of the grammar. -/
inductive Rule where
  | expression
  | term
  | factor
  | atom
  deriving DecidableEq

/-- Derivations, by the rule at their root. -/
inductive Tree : Rule → Type where
  | plain (c : Char) : Tree .atom
  | escaped (c : Char) : Tree .atom
  | group (inner : Tree .expression) : Tree .atom
  | bare (atom : Tree .atom) : Tree .factor
  | quantified (atom : Tree .atom) (q : Quantifier) : Tree .factor
  | nothing : Tree .term
  | append (init : Tree .term) (last : Tree .factor) : Tree .term
  | single (term : Tree .term) : Tree .expression
  | bar (init : Tree .expression) (last : Tree .term) : Tree .expression

namespace Tree

/-- The pattern that a tree derives. -/
def text : {rule : Rule} → Tree rule → List Char
  | _, plain c => [c]
  | _, escaped c => ['\\', c]
  | _, group inner => '(' :: inner.text ++ [')']
  | _, bare atom => atom.text
  | _, quantified atom q => atom.text ++ [q.symbol]
  | _, nothing => []
  | _, append init last => init.text ++ last.text
  | _, single term => term.text
  | _, bar init last => init.text ++ '|' :: last.text

/-- Whether a term ends with an atom that could still be quantified. -/
def endsBare : Tree .term → Bool
  | append _ (bare _) => true
  | _ => false

/-- Whether a text begins with a quantifier symbol. -/
def startsQuantified : List Char → Bool
  | [] => false
  | c :: _ => (Quantifier.ofSymbol? c).isSome

/-- A plain character has no other meaning, and no quantifier symbol follows a bare atom. -/
def Valid : {rule : Rule} → Tree rule → Prop
  | _, plain c => c ≠ '\\' ∧ c ≠ '(' ∧ c ≠ ')' ∧ c ≠ '|'
  | _, escaped _ => True
  | _, group inner => inner.Valid
  | _, bare atom => atom.Valid
  | _, quantified atom _ => atom.Valid
  | _, nothing => True
  | _, append init last =>
    init.Valid ∧ last.Valid ∧ (init.endsBare = true → startsQuantified last.text = false)
  | _, single term => term.Valid
  | _, bar init last => init.Valid ∧ last.Valid

/-- What a construction makes of a tree. The empty word is made only for a term without factors. -/
def build {σ φ : Type} (make : Construction σ φ) : {rule : Rule} → Tree rule → σ → φ × σ
  | _, plain c, store => make.literal c store
  | _, escaped c, store => make.literal (Reader.unescape c) store
  | _, group inner, store => inner.build make store
  | _, bare atom, store => atom.build make store
  | _, quantified atom q, store =>
    let operand := atom.build make store
    make.quantified q operand.1 operand.2
  | _, nothing, store => make.empty store
  | _, append nothing last, store => last.build make store
  | _, append (append init middle) last, store =>
    let left := (append init middle).build make store
    let right := last.build make left.2
    make.concat left.1 right.1 right.2
  | _, single term, store => term.build make store
  | _, bar init last, store =>
    let left := init.build make store
    let right := last.build make left.2
    make.alternation left.1 right.1 right.2

end Tree

/-- Expressions themselves as what is built. -/
def Regex.construction : Construction Unit Regex where
  empty _ := (.empty, ())
  literal c _ := (.literal c, ())
  concat first second _ := (.concat first second, ())
  alternation left right _ := (.alternation left right, ())
  quantified q operand _ := (.quantified q operand, ())

/-- The expression that a tree stands for. -/
def Tree.regex {rule : Rule} (tree : Tree rule) : Regex :=
  (tree.build Regex.construction ()).1

end RegularPattern
