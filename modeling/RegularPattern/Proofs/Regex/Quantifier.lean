import Mathlib
import RegularPattern.Regex

/-!
# Quantifiers in Kleene algebra

A quantifier makes a language of the language of its operand: the star, the star with one more
word in front, or at most one word. This is the same as to count the pieces of a word.

## Main definitions

* `Quantifier.language` — what a quantifier makes of the language of its operand.
-/

namespace RegularPattern

open scoped Computability

namespace Quantifier

variable {q : Quantifier} {L : Language Char} {word : List Char}

def language : Quantifier → Language Char → Language Char
  | zeroOrMore, L => L∗
  | oneOrMore, L => L * L∗
  | zeroOrOne, L => 1 + L

theorem mem_language_iff : word ∈ q.language L ↔
    ∃ pieces : List (List Char),
      q.Allows pieces.length ∧ word = pieces.flatten ∧ ∀ piece ∈ pieces, piece ∈ L := by
  cases q with
  | zeroOrMore => simp [language, Language.mem_kstar, Allows]
  | oneOrMore =>
    simp only [language, Language.mem_mul, Language.mem_kstar, Allows]
    constructor
    · rintro ⟨first, inFirst, rest, ⟨pieces, rfl, inRest⟩, rfl⟩
      exact ⟨first :: pieces, by simp, rfl, List.forall_mem_cons.mpr ⟨inFirst, inRest⟩⟩
    · rintro ⟨pieces, allowed, rfl, inAll⟩
      cases pieces with
      | nil => simp at allowed
      | cons first pieces =>
        obtain ⟨inFirst, inRest⟩ := List.forall_mem_cons.mp inAll
        exact ⟨first, inFirst, pieces.flatten, ⟨pieces, rfl, inRest⟩, rfl⟩
  | zeroOrOne =>
    simp only [language, Language.mem_add, Language.mem_one, Allows]
    constructor
    · rintro (rfl | inL)
      · exact ⟨[], by simp⟩
      · exact ⟨[word], by simpa using inL⟩
    · rintro ⟨pieces, allowed, rfl, inAll⟩
      match pieces with
      | [] => simp
      | [piece] => exact Or.inr (by simpa using inAll)
      | _ :: _ :: _ => simp at allowed

end Quantifier

/-! ## Words as texts -/

theorem toList_mem_mul_iff {L M : Language Char} (text : String) :
    text.toList ∈ L * M ↔ ∃ u v : String, text = u ++ v ∧ u.toList ∈ L ∧ v.toList ∈ M := by
  rw [Language.mem_mul]
  constructor
  · rintro ⟨u, inFirst, v, inSecond, eq⟩
    refine ⟨.ofList u, .ofList v, ?_, by rwa [String.toList_ofList], by rwa [String.toList_ofList]⟩
    rw [← String.toList_inj, String.toList_append, String.toList_ofList, String.toList_ofList, eq]
  · rintro ⟨u, v, rfl, inFirst, inSecond⟩
    exact ⟨u.toList, inFirst, v.toList, inSecond, String.toList_append.symm⟩

theorem Quantifier.toList_mem_language_iff {q : Quantifier} {L : Language Char} (text : String) :
    text.toList ∈ q.language L ↔
      ∃ pieces : List String, q.Allows pieces.length ∧ text = String.join pieces ∧
        ∀ piece ∈ pieces, piece.toList ∈ L := by
  rw [mem_language_iff]
  constructor
  · rintro ⟨pieces, allowed, eq, inAll⟩
    refine ⟨pieces.map .ofList, by rwa [List.length_map], ?_, ?_⟩
    · rw [← String.toList_inj, String.toList_join, List.flatMap_map, eq]
      simp [List.flatMap]
    · intro piece mem
      obtain ⟨word, inPieces, rfl⟩ := List.mem_map.mp mem
      rw [String.toList_ofList]
      exact inAll word inPieces
  · rintro ⟨pieces, allowed, rfl, inAll⟩
    refine ⟨pieces.map String.toList, by rwa [List.length_map], ?_, ?_⟩
    · rw [String.toList_join, List.flatMap]
    · intro word mem
      obtain ⟨piece, inPieces, rfl⟩ := List.mem_map.mp mem
      exact inAll piece inPieces

end RegularPattern
