import RegularPattern.Graph.Basic

/-!
# Paths

A path from one state to another spells the characters that its consuming edges read. This is what
acceptance means on the graph, without a simulator.

## Main definitions

* `Graph.Path` — paths and the words that they spell.
* `Graph.Reaches` — paths of epsilon edges alone.
-/

namespace RegularPattern.Graph

/-- There is a path from one state to another that spells the word. -/
inductive Path (graph : Graph) : StateId → List Char → StateId → Prop where
  | refl (s : StateId) : Path graph s [] s
  | epsilon {s t u : StateId} {word : List Char} (edge : t ∈ graph.epsilons s)
      (rest : Path graph t word u) : Path graph s word u
  | consuming {s t u : StateId} {c : Char} {word : List Char} (edge : t ∈ graph.targets s c)
      (rest : Path graph t word u) : Path graph s (c :: word) u

/-- There is a path of epsilon edges from one state to another. -/
inductive Reaches (graph : Graph) : StateId → StateId → Prop where
  | refl (s : StateId) : Reaches graph s s
  | epsilon {s t u : StateId} (edge : t ∈ graph.epsilons s) (rest : Reaches graph t u) :
      Reaches graph s u

variable {graph : Graph}

theorem Path.trans {s t u : StateId} {v w : List Char} (first : graph.Path s v t)
    (second : graph.Path t w u) : graph.Path s (v ++ w) u := by
  induction first with
  | refl => exact second
  | epsilon edge _ ih => exact .epsilon edge (ih second)
  | consuming edge _ ih => exact .consuming edge (ih second)

theorem Reaches.trans {s t u : StateId} (first : graph.Reaches s t)
    (second : graph.Reaches t u) : graph.Reaches s u := by
  induction first with
  | refl => exact second
  | epsilon edge _ ih => exact .epsilon edge (ih second)

/-- A path spells the empty word exactly if it has epsilon edges alone. -/
theorem path_nil_iff {s t : StateId} : graph.Path s [] t ↔ graph.Reaches s t := by
  constructor
  · intro path
    generalize empty : ([] : List Char) = word at path
    induction path with
    | refl s => exact .refl s
    | epsilon edge _ ih => exact .epsilon edge (ih empty)
    | consuming => simp at empty
  · intro reaches
    induction reaches with
    | refl s => exact .refl s
    | epsilon edge _ ih => exact .epsilon edge ih

/-- A path can be cut at any place in its word. -/
theorem path_append_iff {s u : StateId} {v w : List Char} :
    graph.Path s (v ++ w) u ↔ ∃ t, graph.Path s v t ∧ graph.Path t w u := by
  constructor
  · intro path
    generalize whole : v ++ w = word at path
    induction path generalizing v with
    | refl s =>
      obtain ⟨rfl, rfl⟩ := List.append_eq_nil_iff.mp whole
      exact ⟨s, .refl s, .refl s⟩
    | epsilon edge _ ih =>
      obtain ⟨t, first, second⟩ := ih whole
      exact ⟨t, .epsilon edge first, second⟩
    | @consuming s t u c word edge rest ih =>
      cases v with
      | nil =>
        obtain rfl : w = c :: word := whole
        exact ⟨s, .refl s, .consuming edge rest⟩
      | cons d v =>
        obtain ⟨rfl, tails⟩ := List.cons.inj whole
        obtain ⟨t, first, second⟩ := ih tails
        exact ⟨t, .consuming edge first, second⟩
  · rintro ⟨t, first, second⟩
    exact first.trans second

theorem path_singleton_iff {s u : StateId} {c : Char} :
    graph.Path s [c] u ↔
      ∃ p q, graph.Reaches s p ∧ q ∈ graph.targets p c ∧ graph.Reaches q u := by
  constructor
  · intro path
    generalize whole : [c] = word at path
    induction path with
    | refl => cases whole
    | epsilon edge _ ih =>
      obtain ⟨p, q, before, consumed, after⟩ := ih whole
      exact ⟨p, q, .epsilon edge before, consumed, after⟩
    | @consuming s t u d word edge rest =>
      obtain ⟨rfl, rfl⟩ := List.cons.inj whole
      exact ⟨s, t, .refl s, edge, path_nil_iff.mp rest⟩
  · rintro ⟨p, q, before, consumed, after⟩
    have rest : graph.Path p [c] u := .consuming consumed (path_nil_iff.mpr after)
    exact (path_nil_iff.mpr before).trans rest

/-- The last character of a word is consumed by one edge, behind which only epsilon edges come. -/
theorem path_concat_iff {s u : StateId} {word : List Char} {c : Char} :
    graph.Path s (word ++ [c]) u ↔
      ∃ p q, graph.Path s word p ∧ q ∈ graph.targets p c ∧ graph.Reaches q u := by
  simp only [path_append_iff, path_singleton_iff]
  constructor
  · rintro ⟨t, first, p, q, before, consumed, after⟩
    have path := first.trans (path_nil_iff.mpr before)
    rw [List.append_nil] at path
    exact ⟨p, q, path, consumed, after⟩
  · rintro ⟨p, q, first, consumed, after⟩
    exact ⟨p, first, p, q, .refl p, consumed, after⟩

end RegularPattern.Graph
