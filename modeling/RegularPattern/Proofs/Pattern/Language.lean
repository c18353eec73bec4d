import RegularPattern.Pattern.Tree
import RegularPattern.Proofs.Regex.Quantifier

/-!
# Languages of derivations

The language that a derivation denotes, by recursion on the derivation. It is the language of the
expression that the derivation stands for.

## Main definitions

* `Tree.language` — the language of a derivation.
-/

namespace RegularPattern.Tree

/-- The words that a derivation denotes. -/
def language : {rule : Rule} → Tree rule → Language Char
  | _, plain c => {[c]}
  | _, escaped 'n' => {['\n']}
  | _, escaped 't' => {['\t']}
  | _, escaped c => {[c]}
  | _, group inner => inner.language
  | _, bare atom => atom.language
  | _, quantified atom q => q.language atom.language
  | _, nothing => 1
  | _, append init last => init.language * last.language
  | _, single term => term.language
  | _, bar init last => init.language + last.language

theorem language_escaped (c : Char) : (escaped c).language = {[Reader.unescape c]} := by
  by_cases newline : c = 'n'
  · subst newline; rfl
  · by_cases tab : c = 't'
    · subst tab; rfl
    · simp [language, Reader.unescape]

theorem language_append_nothing (last : Tree .factor) :
    (append nothing last).language = last.language :=
  one_mul last.language

theorem language_foldl_append (term : Tree .term) (factors : List (Tree .factor)) :
    (factors.foldl append term).language = term.language * (factors.map language).prod := by
  induction factors generalizing term with
  | nil => simp
  | cons factor factors ih =>
    rw [List.foldl_cons, ih, language, List.map_cons, List.prod_cons, mul_assoc]

theorem mem_language_foldl_bar (tree : Tree .expression) (terms : List (Tree .term))
    (word : List Char) :
    word ∈ (terms.foldl bar tree).language ↔
      word ∈ tree.language ∨ ∃ term ∈ terms, word ∈ term.language := by
  induction terms generalizing tree with
  | nil => simp
  | cons term terms ih =>
    rw [List.foldl_cons, ih, language, Language.mem_add]
    simp [or_assoc]

/-- The language of a derivation is that of its expression. -/
theorem mem_language_iff {rule : Rule} (tree : Tree rule) (word : List Char) :
    word ∈ tree.language ↔ tree.regex.Language word := by
  induction tree generalizing word with
  | plain c => rfl
  | escaped c => rw [language_escaped]; rfl
  | group inner ih => exact ih word
  | bare atom ih => exact ih word
  | quantified atom q ih =>
    rw [language, Quantifier.mem_language_iff]
    simp only [ih]
    rfl
  | nothing => rfl
  | append init last ihInit ihLast =>
    cases init with
    | nothing => rw [language_append_nothing]; exact ihLast word
    | append init middle =>
      rw [language, Language.mem_mul]
      simp only [ihInit, ihLast]
      constructor
      · rintro ⟨u, left, v, right, rfl⟩
        exact ⟨u, v, rfl, left, right⟩
      · rintro ⟨u, v, rfl, left, right⟩
        exact ⟨u, left, v, right, rfl⟩
  | single term ih => exact ih word
  | bar init last ihInit ihLast =>
    rw [language, Language.mem_add, ihInit, ihLast]
    rfl

end RegularPattern.Tree
