import RegularPattern.Pattern.Literal
import RegularPattern.Proofs.Pattern.Composition

/-!
# Derivations of literals

The derivation of a text written as a pattern has one factor for each character of the text, and
that of several such texts one term for each of them. Behind a quantified factor, symbols of
quantifiers are derived two by two. In both cases no factor can be taken for the quantifier of the
factor before it: an escaped symbol begins with a backslash, and a quantified atom takes no further
quantifier.

## Main definitions

* `Tree.verbatim`, `Tree.anyOf` — derivations of texts written as patterns.
* `Tree.symbols`, `Tree.groupRun` — the factors that symbols of quantifiers make by themselves, and
  behind a quantified group.
-/

namespace RegularPattern.Tree

open Reader

/-! ## Texts written as patterns -/

/-- A character that stands for itself. -/
def literal (c : Char) : Tree .factor :=
  bare (if c ∈ metacharacters then escaped c else plain c)

/-- A text, character by character. -/
def verbatim (text : List Char) : Tree .term :=
  (text.map literal).foldl append nothing

/-- Texts to choose from. -/
def anyOf (first : List Char) (more : List (List Char)) : Tree .expression :=
  (more.map verbatim).foldl bar (single (verbatim first))

theorem text_literal (c : Char) : (literal c).text = escapeMeta c := by
  unfold literal escapeMeta
  split <;> rfl

theorem valid_literal (c : Char) : (literal c).Valid := by
  unfold literal
  split
  · trivial
  · next ordinary =>
    simp only [metacharacters, List.mem_cons, not_or] at ordinary
    simp [Valid, ordinary]

theorem startsQuantified_literal (c : Char) : startsQuantified (literal c).text = false := by
  rw [text_literal, escapeMeta]
  split
  · rfl
  · next ordinary =>
    have none : Quantifier.ofSymbol? c = none := by
      rw [Option.eq_none_iff_forall_ne_some]
      rintro q found
      obtain rfl := Quantifier.ofSymbol?_eq_some_iff.mp found
      exact ordinary (by cases q <;> decide)
    simp [startsQuantified, none]

theorem language_literal (c : Char) : (literal c).language = {[c]} := by
  unfold literal
  split
  · next special =>
    rw [language, language_escaped]
    -- None of the metacharacters changes behind a backslash.
    have same : ∀ d ∈ metacharacters, unescape d = d := by simp [metacharacters, unescape]
    rw [same c special]
  · rfl

theorem text_verbatim (text : List Char) :
    (verbatim text).text = text.flatMap escapeMeta := by
  rw [verbatim, text_foldl_append, Tree.text, List.nil_append, List.flatMap_map]
  simp only [text_literal]

theorem valid_foldl_literal (text : List Char) {init : Tree .term} (valid : init.Valid) :
    ((text.map literal).foldl append init).Valid := by
  induction text generalizing init with
  | nil => exact valid
  | cons c text ih => exact ih ⟨valid, valid_literal c, fun _ => startsQuantified_literal c⟩

theorem valid_verbatim (text : List Char) : (verbatim text).Valid :=
  valid_foldl_literal text trivial

theorem prod_singletons (word : List Char) :
    (word.map fun c => ({[c]} : Language Char)).prod = {word} := by
  induction word with
  | nil => rfl
  | cons c word ih =>
    rw [List.map_cons, List.prod_cons, ih]
    exact Set.image2_singleton

theorem language_verbatim (text : List Char) : (verbatim text).language = {text} := by
  rw [verbatim, language_foldl_append, language, one_mul, List.map_map]
  have each : language ∘ literal = fun c => ({[c]} : Language Char) := funext language_literal
  rw [each, prod_singletons]

theorem intercalate_cons (separator first : List Char) (more : List (List Char)) :
    separator.intercalate (first :: more) = first ++ more.flatMap (separator ++ ·) := by
  induction more generalizing first with
  | nil => simp
  | cons second more ih => rw [List.intercalate_cons_cons, ih, List.flatMap_cons]; simp

theorem text_anyOf (first : List Char) (more : List (List Char)) :
    (anyOf first more).text =
      ['|'].intercalate ((first :: more).map (List.flatMap escapeMeta)) := by
  rw [anyOf, text_foldl_bar, text, text_verbatim, List.flatMap_map, List.map_cons,
    intercalate_cons, List.flatMap_map]
  simp only [barred, text_verbatim, List.singleton_append]

theorem valid_anyOf (first : List Char) (more : List (List Char)) : (anyOf first more).Valid := by
  refine valid_foldl_bar_iff.mpr ⟨valid_verbatim first, fun term mem => ?_⟩
  obtain ⟨text, -, rfl⟩ := List.mem_map.mp mem
  exact valid_verbatim text

theorem mem_language_anyOf_iff (first : List Char) (more : List (List Char)) (word : List Char) :
    word ∈ (anyOf first more).language ↔ word ∈ first :: more := by
  have only (text : List Char) : word ∈ (verbatim text).language ↔ word = text := by
    rw [language_verbatim]
    rfl
  rw [anyOf, mem_language_foldl_bar, language, only, List.mem_cons]
  simp [only]

theorem derives_anyOf (first : String) (more : List String) :
    (anyOf first.toList (more.map String.toList)).Derives
      (RegularPattern.anyOf (first :: more)).toList where
  valid := valid_anyOf ..
  text_eq := by
    have each : String.toList ∘ RegularPattern.verbatim = List.flatMap escapeMeta ∘ String.toList :=
      funext fun text => String.toList_ofList
    rw [text_anyOf, RegularPattern.anyOf, String.toList_intercalate, List.map_map, each]
    simp

/-! ## Symbols of quantifiers by themselves -/

/-- The factors that symbols of quantifiers make where the first of them has nothing to
quantify. -/
def symbols : List Quantifier → List (Tree .factor)
  | [] => []
  | [last] => [bare (plain last.symbol)]
  | first :: q :: rest => quantified (plain first.symbol) q :: symbols rest

theorem valid_plain_symbol (q : Quantifier) : (plain q.symbol).Valid := by
  cases q <;> simp [Valid, Quantifier.symbol]

theorem flatMap_text_symbols (qs : List Quantifier) :
    (symbols qs).flatMap text = qs.map Quantifier.symbol := by
  fun_induction symbols qs with
  | case1 => rfl
  | case2 => rfl
  | case3 first q rest ih => simp [text, ih]

theorem valid_foldl_symbols (qs : List Quantifier) {init : Tree .term} (valid : init.Valid)
    (complete : init.endsBare = false) : ((symbols qs).foldl append init).Valid := by
  have free {P : Prop} (bare : init.endsBare = true) : P := by simp [complete] at bare
  fun_induction symbols qs generalizing init with
  | case1 => exact valid
  | case2 last => exact ⟨valid, valid_plain_symbol last, free⟩
  | case3 first q rest ih =>
    exact ih ⟨valid, valid_plain_symbol first, free⟩ rfl nofun

theorem mem_prod_symbols_iff (qs : List Quantifier) (word : List Char) :
    word ∈ ((symbols qs).map language).prod ↔ (Regex.ofSymbols qs).Language word := by
  fun_induction symbols qs generalizing word with
  | case1 => rfl
  | case2 last => rw [List.map_singleton, List.prod_singleton]; rfl
  | case3 first q rest ih =>
    rw [List.map_cons, List.prod_cons, Language.mem_mul]
    constructor
    · rintro ⟨u, left, v, right, rfl⟩
      exact ⟨u, v, rfl, (mem_language_iff _ u).mp left, (ih v).mp right⟩
    · rintro ⟨u, v, rfl, left, right⟩
      exact ⟨u, (mem_language_iff _ u).mpr left, v, (ih v).mpr right, rfl⟩

/-- A quantified group with further symbols of quantifiers behind it. -/
def groupRun (inner : Tree .expression) (q : Quantifier) (more : List Quantifier) :
    Tree .expression :=
  single ((symbols more).foldl append (append nothing (quantified (group inner) q)))

variable {inner : Tree .expression} {pattern : List Char}

theorem Derives.groupRun (derives : inner.Derives pattern) (q : Quantifier)
    (more : List Quantifier) :
    (inner.groupRun q more).Derives
      ('(' :: pattern ++ ')' :: (q :: more).map Quantifier.symbol) where
  valid := valid_foldl_symbols more ⟨trivial, derives.valid, nofun⟩ rfl
  text_eq := by
    simp [Tree.groupRun, text, text_foldl_append, flatMap_text_symbols, derives.text_eq]

theorem language_groupRun (inner : Tree .expression) (q : Quantifier) (more : List Quantifier) :
    (inner.groupRun q more).language =
      q.language inner.language * ((symbols more).map language).prod := by
  rw [groupRun, language, language_foldl_append, language_append_nothing, language, language]

end RegularPattern.Tree
