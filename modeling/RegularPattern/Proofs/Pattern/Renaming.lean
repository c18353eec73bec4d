import Mathlib.Logic.Equiv.Basic
import RegularPattern.Proofs.Pattern.Derivation
import RegularPattern.Proofs.Pattern.Scan

/-!
# Renaming characters of patterns

A permutation of the characters that leaves the special ones alone takes derivations to derivations
and finds the same fault in a faulty pattern: no other character has a meaning of its own.

## Main definitions

* `specialCharacters` — the characters that patterns may treat in a way of their own.
* `Renaming` — a permutation that fixes them.
* `Tree.rename` — a derivation, with its characters renamed.
-/

namespace RegularPattern

/-- The symbols of the grammar, the letters that change behind a backslash, and what they change
to. -/
def specialCharacters : List Char :=
  ['\\', '(', ')', '|', '*', '+', '?', 'n', 't', '\n', '\t']

/-- A permutation of the characters that fixes the special ones. -/
structure Renaming where
  perm : Equiv.Perm Char
  fixes : ∀ c ∈ specialCharacters, perm c = c

namespace Renaming

instance : CoeFun Renaming fun _ => Char → Char := ⟨fun f => f.perm⟩

/-- Two characters that are not special trade places. -/
def swap (c d : Char) (plain : c ∉ specialCharacters) (plain' : d ∉ specialCharacters) :
    Renaming where
  perm := Equiv.swap c d
  fixes e special := by
    refine Equiv.swap_apply_of_ne_of_ne ?_ ?_ <;> rintro rfl <;> contradiction

variable {f : Renaming}

/-- No other character is taken for a special one. -/
theorem apply_eq_iff {c d : Char} (special : d ∈ specialCharacters) : f c = d ↔ c = d := by
  constructor
  · intro same
    exact f.perm.injective (same.trans (f.fixes d special).symm)
  · rintro rfl
    exact f.fixes c special

theorem symbol_special (q : Quantifier) : q.symbol ∈ specialCharacters := by
  cases q <;> decide

@[simp] theorem ofSymbol?_apply (c : Char) :
    Quantifier.ofSymbol? (f c) = Quantifier.ofSymbol? c := by
  ext q
  rw [Quantifier.ofSymbol?_eq_some_iff, Quantifier.ofSymbol?_eq_some_iff,
    apply_eq_iff (symbol_special q)]

/-- A backslash does the same to a character whatever it is called. -/
theorem unescape_apply (c : Char) : Reader.unescape (f c) = f (Reader.unescape c) := by
  by_cases letter : c = 'n' ∨ c = 't'
  · rcases letter with rfl | rfl
    · rw [f.fixes 'n' (by decide), Reader.unescape, f.fixes '\n' (by decide)]
    · rw [f.fixes 't' (by decide), Reader.unescape, f.fixes '\t' (by decide)]
  · have plain {d : Char} (ne : ¬(d = 'n' ∨ d = 't')) : Reader.unescape d = d := by
      unfold Reader.unescape
      split <;> simp_all
    rw [plain letter, plain]
    rwa [apply_eq_iff (by decide), apply_eq_iff (by decide)]

end Renaming

/-! ## Derivations -/

namespace Tree

variable {f : Renaming}

/-- A derivation, with its characters renamed. -/
def rename (f : Renaming) : {rule : Rule} → Tree rule → Tree rule
  | _, plain c => plain (f c)
  | _, escaped c => escaped (f c)
  | _, group inner => group (inner.rename f)
  | _, bare atom => bare (atom.rename f)
  | _, quantified atom q => quantified (atom.rename f) q
  | _, nothing => nothing
  | _, append init last => append (init.rename f) (last.rename f)
  | _, single term => single (term.rename f)
  | _, bar init last => bar (init.rename f) (last.rename f)

theorem text_rename {rule : Rule} (tree : Tree rule) :
    (tree.rename f).text = tree.text.map f := by
  have special := f.fixes
  induction tree with
  | quantified atom q ih => simp [rename, text, ih, special _ (Renaming.symbol_special q)]
  | _ => simp_all [rename, text, specialCharacters]

theorem startsQuantified_map (word : List Char) :
    startsQuantified (word.map f) = startsQuantified word := by
  cases word with
  | nil => rfl
  | cons c word => rw [List.map_cons, startsQuantified, startsQuantified, Renaming.ofSymbol?_apply]

theorem endsBare_rename (term : Tree .term) : (term.rename f).endsBare = term.endsBare := by
  cases term with
  | nothing => rfl
  | append init last => cases last <;> rfl

theorem Valid.rename {rule : Rule} {tree : Tree rule} (valid : tree.Valid) :
    (tree.rename f).Valid := by
  induction tree with
  | plain c =>
    obtain ⟨neEscape, neOpen, neClose, neBar⟩ := valid
    have same {d : Char} (special : d ∈ specialCharacters) : f c = d ↔ c = d :=
      Renaming.apply_eq_iff special
    exact ⟨(same (by decide)).not.mpr neEscape, (same (by decide)).not.mpr neOpen,
      (same (by decide)).not.mpr neClose, (same (by decide)).not.mpr neBar⟩
  | escaped c => trivial
  | nothing => trivial
  | group inner ih => exact ih valid
  | bare atom ih => exact ih valid
  | quantified atom q ih => exact ih valid
  | single term ih => exact ih valid
  | append init last ihInit ihLast =>
    refine ⟨ihInit valid.1, ihLast valid.2.1, ?_⟩
    rw [endsBare_rename, text_rename, startsQuantified_map]
    exact valid.2.2
  | bar init last ihInit ihLast => exact ⟨ihInit valid.1, ihLast valid.2⟩

theorem Derives.rename {rule : Rule} {tree : Tree rule} {pattern : List Char}
    (derives : tree.Derives pattern) : (tree.rename f).Derives (pattern.map f) where
  valid := derives.valid.rename
  text_eq := by rw [text_rename, derives.text_eq]

end Tree

/-! ## Faults -/

namespace Brackets

variable {f : Renaming}

theorem scan_map (position : Nat) (opened : List Nat) (input : List Char) :
    scan position opened (input.map f) = scan position opened input := by
  have escape : f '\\' = '\\' := f.fixes _ (by decide)
  have opening : f '(' = '(' := f.fixes _ (by decide)
  have closing : f ')' = ')' := f.fixes _ (by decide)
  fun_induction scan position opened input with
  | case1 position opened => rfl
  | case2 position opened => simp [escape, scan]
  | case3 position opened c rest ih => simpa [escape, scan] using ih
  | case4 position opened rest ih => simpa [opening, scan] using ih
  | case5 position rest => simp [closing, scan]
  | case6 position rest innermost outer ih => simpa [closing, scan] using ih
  | case7 position opened c rest noEnd noEscape noOpen noClose ih =>
    have neEscape : c ≠ '\\' := by
      rintro rfl
      cases rest with
      | nil => exact noEnd rfl rfl
      | cons d rest => exact noEscape d rest rfl rfl
    rw [List.map_cons, scan_plain, ih]
    · rwa [Ne, Renaming.apply_eq_iff (by decide)]
    · rwa [Ne, Renaming.apply_eq_iff (by decide)]
    · rwa [Ne, Renaming.apply_eq_iff (by decide)]

theorem fault?_map (pattern : List Char) : fault? (pattern.map f) = fault? pattern :=
  scan_map 0 [] pattern

end Brackets

end RegularPattern
