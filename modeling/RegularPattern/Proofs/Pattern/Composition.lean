import RegularPattern.Proofs.Pattern.Derivation
import RegularPattern.Proofs.Pattern.Language

/-!
# Derivations of composed patterns

Patterns that have derivations can be put together as texts: between parentheses, one group behind
another, a quantifier behind a group, and with a bar between them. The derivation of the whole is
made of those of the parts. Alternatives are combined from the left, so the bar between two patterns
is not the root of the whole if the second one has alternatives itself.

## Main definitions

* `Tree.ofFactor`, `Tree.ofFactors` — expressions of one or two factors.
* `Tree.orElse` — the alternatives of one expression and then those of another.
-/

namespace RegularPattern.Tree

variable {tree other : Tree .expression} {pattern pattern' : List Char}

/-- An expression of one factor. -/
def ofFactor (factor : Tree .factor) : Tree .expression :=
  single (append nothing factor)

/-- An expression of two factors. -/
def ofFactors (first second : Tree .factor) : Tree .expression :=
  single (append (append nothing first) second)

/-- The alternatives of one expression and then those of another. -/
def orElse (tree : Tree .expression) : Tree .expression → Tree .expression
  | single term => bar tree term
  | bar init last => bar (tree.orElse init) last

/-! ## Texts -/

theorem text_orElse (tree : Tree .expression) :
    (other : Tree .expression) → (tree.orElse other).text = tree.text ++ '|' :: other.text
  | single _ => by rw [orElse, text, text]
  | bar init last => by
    rw [orElse, text, text_orElse tree init, text, List.append_assoc, List.cons_append]

theorem Valid.orElse (valid : tree.Valid) :
    {other : Tree .expression} → other.Valid → (tree.orElse other).Valid
  | single _, valid' => by
    rw [Tree.orElse, Valid]
    exact ⟨valid, valid'⟩
  | bar _ _, valid' => by
    rw [Tree.orElse, Valid]
    exact ⟨valid.orElse valid'.1, valid'.2⟩

theorem Derives.orElse (derives : tree.Derives pattern) (derives' : other.Derives pattern') :
    (tree.orElse other).Derives (pattern ++ '|' :: pattern') where
  valid := derives.valid.orElse derives'.valid
  text_eq := by rw [text_orElse, derives.text_eq, derives'.text_eq]

theorem Derives.enclosed (derives : tree.Derives pattern) :
    (ofFactor (bare (group tree))).Derives ('(' :: pattern ++ [')']) where
  valid := ⟨trivial, derives.valid, nofun⟩
  text_eq := by simp [ofFactor, text, derives.text_eq]

theorem Derives.enclosed_quantified (derives : tree.Derives pattern) (q : Quantifier) :
    (ofFactor (quantified (group tree) q)).Derives ('(' :: pattern ++ [')', q.symbol]) where
  valid := ⟨trivial, derives.valid, nofun⟩
  text_eq := by simp [ofFactor, text, derives.text_eq]

/-- A group may stand behind a group, since no parenthesis is a quantifier symbol. -/
theorem Derives.enclosed_enclosed (derives : tree.Derives pattern)
    (derives' : other.Derives pattern') :
    (ofFactors (bare (group tree)) (bare (group other))).Derives
      ('(' :: pattern ++ ')' :: '(' :: pattern' ++ [')']) where
  valid := ⟨⟨trivial, derives.valid, nofun⟩, derives'.valid, fun _ => rfl⟩
  text_eq := by simp [ofFactors, text, derives.text_eq, derives'.text_eq]

/-! ## Languages -/

theorem language_orElse (tree : Tree .expression) : (other : Tree .expression) →
    (tree.orElse other).language = tree.language + other.language
  | single _ => by rw [orElse, language, language]
  | bar init last => by
    rw [orElse, language, language_orElse tree init, language, add_assoc]

theorem language_ofFactor (factor : Tree .factor) : (ofFactor factor).language = factor.language :=
  language_append_nothing factor

theorem language_ofFactors (first second : Tree .factor) :
    (ofFactors first second).language = first.language * second.language :=
  congrArg (· * second.language) (language_append_nothing first)

end RegularPattern.Tree
