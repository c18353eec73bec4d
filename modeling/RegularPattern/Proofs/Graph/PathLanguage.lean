import Mathlib
import RegularPattern.Graph.Fragment
import RegularPattern.Graph.Path

/-!
# Languages of paths

The words that paths between two states spell, as a language. The languages of all states towards
one exit are the least family that no edge leads out of, backwards; every upper bound on the
language of a graph is proved by giving such a family.

## Main definitions

* `Edge.label` — what an edge reads.
* `Graph.between` — the language of the paths from one state to another.
* `Graph.language` — the language of a fragment, from its entry to its exit.
-/

namespace RegularPattern

open scoped Computability

namespace Edge

/-- What an edge reads. -/
def label : Edge → Language Char
  | epsilon _ _ => 1
  | consuming _ c _ => {[c]}

@[simp] theorem label_epsilon (s t : StateId) : (epsilon s t).label = 1 := rfl

@[simp] theorem label_consuming (s : StateId) (c : Char) (t : StateId) :
    (consuming s c t).label = {[c]} := rfl

end Edge

namespace Graph

variable {graph other : Graph}

/-- The words that paths from `s` to `t` spell. -/
def between (graph : Graph) (s t : StateId) : Language Char :=
  {word | graph.Path s word t}

/-- The words that lead from the entry of a fragment to its exit. -/
def language (graph : Graph) (fragment : Fragment) : Language Char :=
  graph.between fragment.start fragment.out

@[simp] theorem mem_between {s t : StateId} {word : List Char} :
    word ∈ graph.between s t ↔ graph.Path s word t := Iff.rfl

theorem one_le_between (graph : Graph) (s : StateId) : 1 ≤ graph.between s s := by
  intro word mem
  obtain rfl := (Language.mem_one word).mp mem
  exact .refl s

theorem label_mul_between_le {edge : Edge} (has : graph.HasEdge edge) (t : StateId) :
    edge.label * graph.between edge.target t ≤ graph.between edge.source t := by
  intro word mem
  cases edge with
  | epsilon source target =>
    rw [Edge.label_epsilon, one_mul] at mem
    exact .epsilon has mem
  | consuming source c target =>
    obtain ⟨first, rfl, rest, path, rfl⟩ := Language.mem_mul.mp mem
    exact .consuming has path

theorem between_le_of_epsilon {s t : StateId} (has : graph.HasEdge (.epsilon s t))
    (u : StateId) : graph.between t u ≤ graph.between s u := by
  simpa using label_mul_between_le has u

theorem between_mul_between_le (graph : Graph) (s t u : StateId) :
    graph.between s t * graph.between t u ≤ graph.between s u := by
  intro word mem
  obtain ⟨first, left, second, right, rfl⟩ := Language.mem_mul.mp mem
  exact left.trans right

/-- A family of languages that contains the empty word at the exit, and that no edge leads out of
backwards, bounds the languages of the paths to the exit. -/
theorem between_le_of_backward {K : StateId → Language Char} {t : StateId} (exit : 1 ≤ K t)
    (backward : ∀ edge, graph.HasEdge edge → edge.label * K edge.target ≤ K edge.source)
    (s : StateId) : graph.between s t ≤ K s := by
  intro word path
  induction path with
  | refl s => exact exit rfl
  | epsilon edge _ ih =>
    have le := backward (.epsilon _ _) edge
    rw [Edge.label_epsilon, one_mul] at le
    exact le (ih exit)
  | @consuming s t _ c _ edge _ ih =>
    have read : [c] ∈ (Edge.consuming s c t).label := rfl
    exact backward (.consuming s c t) edge (Language.append_mem_mul read (ih exit))

/-- A path that starts among the states `region` is a path of any other graph that has the same
edges there, as long as these stay there. -/
theorem Path.transfer (region : Set StateId) {s t : StateId} {word : List Char}
    (path : graph.Path s word t) (mem : s ∈ region)
    (kept : ∀ edge, edge.source ∈ region → graph.HasEdge edge →
      other.HasEdge edge ∧ edge.target ∈ region) : other.Path s word t := by
  induction path with
  | refl s => exact .refl s
  | epsilon edge _ ih =>
    obtain ⟨here, stays⟩ := kept (.epsilon _ _) mem edge
    exact .epsilon here (ih stays)
  | consuming edge _ ih =>
    obtain ⟨here, stays⟩ := kept (.consuming _ _ _) mem edge
    exact .consuming here (ih stays)

theorem between_mono (kept : ∀ edge, graph.HasEdge edge → other.HasEdge edge) (s t : StateId) :
    graph.between s t ≤ other.between s t :=
  fun _ path => Path.transfer Set.univ path trivial
    fun edge _ has => ⟨kept edge has, trivial⟩

end Graph

end RegularPattern
