import RegularPattern.Proofs.Graph.Wiring
import RegularPattern.Proofs.Regex.Quantifier

/-!
# Correctness of Thompson's construction

Each operation makes a fragment that owns the states of its operands and the two fresh ones, if it
makes any, and whose language is that of the operation. The operands may be any fragments that own
disjoint states.

Upper bounds come from `Part.between_le_whole`, with a fresh state as a part of its own. Lower
bounds follow the new edges.
-/

namespace RegularPattern

open scoped Computability

variable {graph : Graph} {first second operand : Fragment} {S T : Set StateId}

namespace Part

/-- A state that the graph does not have yet. -/
def fresh (wf : graph.WellFormed) {id : StateId} (ge : graph.size ≤ id) (rest : Language Char) :
    Part graph where
  start := id
  out := id
  owned := {id}
  start_mem := rfl
  out_mem := rfl
  closed := wf.closed_singleton ge
  rest := rest

/-- An operand with what is going to be read behind it. -/
def ofOwns (owns : graph.Owns operand S) (rest : Language Char) : Part graph where
  toFragment := operand
  owned := S
  start_mem := owns.start_mem
  out_mem := owns.out_mem
  closed := owns.closed
  rest := rest

@[simp] theorem whole_fresh (wf : graph.WellFormed) {id : StateId} (ge : graph.size ≤ id)
    (rest : Language Char) : (fresh wf ge rest).whole = rest := by
  have sink : ∀ edge, graph.HasEdge edge → edge.source ≠ id := fun edge has =>
    ((Graph.source_lt_of_hasEdge has).trans_le ge).ne
  have alone : graph.language (fresh wf ge rest).toFragment = 1 :=
    Graph.between_self_of_sink sink
  rw [whole, alone, one_mul]
  rfl

@[simp] theorem whole_ofOwns (owns : graph.Owns operand S) (rest : Language Char) :
    (ofOwns owns rest).whole = graph.language operand * rest := rfl

@[simp] theorem rest_ofOwns (owns : graph.Owns operand S) (rest : Language Char) :
    (ofOwns owns rest).rest = rest := rfl

/-- The first of two fresh states, with what is read from it on. -/
def entry (wf : graph.WellFormed) (rest : Language Char) : Part graph :=
  fresh wf le_rfl rest

/-- The second of two fresh states. -/
def exit (wf : graph.WellFormed) : Part graph :=
  fresh wf (Nat.le_succ graph.size) 1

@[simp] theorem whole_entry (wf : graph.WellFormed) (rest : Language Char) :
    (entry wf rest).whole = rest := whole_fresh wf le_rfl rest

@[simp] theorem rest_entry (wf : graph.WellFormed) (rest : Language Char) :
    (entry wf rest).rest = rest := rfl

@[simp] theorem whole_exit (wf : graph.WellFormed) : (exit wf).whole = 1 :=
  whole_fresh wf (Nat.le_succ graph.size) 1

/-- The parts of a graph that become one when two fresh states are added. -/
def withFresh (wf : graph.WellFormed) (rest : Language Char) (operands : List (Part graph)) :
    List (Part graph) :=
  entry wf rest :: exit wf :: operands

section

variable {wf : graph.WellFormed} {rest : Language Char} {operands : List (Part graph)}

theorem entry_mem : entry wf rest ∈ withFresh wf rest operands :=
  List.mem_cons_self

theorem exit_mem : exit wf ∈ withFresh wf rest operands :=
  List.mem_cons_of_mem _ List.mem_cons_self

theorem operand_mem {p : Part graph} (mem : p ∈ operands) : p ∈ withFresh wf rest operands :=
  List.mem_cons_of_mem _ (List.mem_cons_of_mem _ mem)

end

theorem Apart.withFresh {operands : List (Part graph)} (apart : Apart operands)
    (known : ∀ p ∈ operands, ∀ s ∈ p.owned, s < graph.size) (wf : graph.WellFormed)
    (rest : Language Char) : Apart (withFresh wf rest operands) := by
  have unknown {id : StateId} (ge : graph.size ≤ id) :
      ∀ p ∈ operands, Disjoint ({id} : Set StateId) p.owned := by
    intro p mem
    rw [Set.disjoint_singleton_left]
    exact fun inP => absurd (known p mem id inP) (Nat.not_lt.mpr ge)
  refine List.pairwise_cons.mpr ⟨?_, List.pairwise_cons.mpr ⟨unknown (Nat.le_succ _), apart⟩⟩
  intro p mem
  rcases List.mem_cons.mp mem with rfl | mem
  · exact Set.disjoint_singleton.mpr (Nat.succ_ne_self _).symm
  · exact unknown le_rfl p mem

end Part

namespace Graph

/-! ## Fresh states with edges -/

section

variable {edges : Fragment → List Edge}

@[simp] theorem wire_store_fst (edges : Fragment → List Edge) (graph : Graph) :
    (store.wire edges graph).1 = ⟨graph.size, graph.size + 1⟩ := rfl

@[simp] theorem size_wire (edges : Fragment → List Edge) (graph : Graph) :
    (store.wire edges graph).2.size = graph.size + 2 := by
  have same := size_addEdges graph.addState.addState (edges ⟨graph.size, graph.size + 1⟩)
  rw [size_addState, size_addState] at same
  exact same

theorem hasEdge_wire
    (known : ∀ edge ∈ edges ⟨graph.size, graph.size + 1⟩, edge.source < graph.size + 2)
    (edge : Edge) :
    (store.wire edges graph).2.HasEdge edge ↔
      graph.HasEdge edge ∨ edge ∈ edges ⟨graph.size, graph.size + 1⟩ := by
  have known' : ∀ edge ∈ edges ⟨graph.size, graph.size + 1⟩,
      edge.source < graph.addState.addState.size := by
    rw [size_addState, size_addState]
    exact known
  have added := hasEdge_addEdges known' edge
  rw [hasEdge_addState, hasEdge_addState] at added
  exact added

theorem state_wire_eq
    (known : ∀ edge ∈ edges ⟨graph.size, graph.size + 1⟩, edge.source < graph.size + 2)
    (id : StateId) :
    (store.wire edges graph).2.state id =
      ((edges ⟨graph.size, graph.size + 1⟩).filter (·.source = id)).foldl State.addEdge
        (graph.state id) := by
  have known' : ∀ edge ∈ edges ⟨graph.size, graph.size + 1⟩,
      edge.source < graph.addState.addState.size := by
    rw [size_addState, size_addState]
    exact known
  have same := state_addEdges_eq known' id
  rw [state_addState, state_addState] at same
  exact same

theorem state_wire
    (known : ∀ edge ∈ edges ⟨graph.size, graph.size + 1⟩, edge.source < graph.size + 2)
    {id : StateId} (ne : ∀ edge ∈ edges ⟨graph.size, graph.size + 1⟩, edge.source ≠ id) :
    (store.wire edges graph).2.state id = graph.state id := by
  have none_leaves : (edges ⟨graph.size, graph.size + 1⟩).filter (·.source = id) = [] := by
    simpa using ne
  rw [state_wire_eq known, none_leaves, List.foldl_nil]

end

/-- Edges that join two fresh states and some operands into one fragment. -/
structure Wires (graph : Graph) (wf : graph.WellFormed) (edges : Fragment → List Edge)
    (rest : Language Char) (operands : List (Part graph)) : Prop where
  apart : Part.Apart operands
  known : ∀ p ∈ operands, ∀ s ∈ p.owned, s < graph.size
  joins : ∀ edge ∈ edges ⟨graph.size, graph.size + 1⟩,
    ∃ p ∈ Part.entry wf rest :: operands, ∃ q ∈ Part.withFresh wf rest operands,
      Part.Joins edge p q

namespace Wires

variable {wf : graph.WellFormed} {edges : Fragment → List Edge} {rest : Language Char}
  {operands : List (Part graph)} (wires : graph.Wires wf edges rest operands)

include wires

theorem source_cases (edge : Edge) (mem : edge ∈ edges ⟨graph.size, graph.size + 1⟩) :
    edge.source = graph.size ∨ ∃ p ∈ operands, edge.source = p.out := by
  obtain ⟨p, memP, q, _, joins⟩ := wires.joins edge mem
  rcases List.mem_cons.mp memP with rfl | memP
  · exact Or.inl joins.source_eq
  · exact Or.inr ⟨p, memP, joins.source_eq⟩

theorem target_cases (edge : Edge) (mem : edge ∈ edges ⟨graph.size, graph.size + 1⟩) :
    edge.target = graph.size ∨ edge.target = graph.size + 1 ∨
      ∃ q ∈ operands, edge.target = q.start := by
  obtain ⟨p, _, q, memQ, joins⟩ := wires.joins edge mem
  simp only [Part.withFresh, List.mem_cons] at memQ
  rcases memQ with rfl | rfl | memQ
  · exact Or.inl joins.target_eq
  · exact Or.inr (Or.inl joins.target_eq)
  · exact Or.inr (Or.inr ⟨q, memQ, joins.target_eq⟩)

/-- The exit of the new fragment is left by no new edge. -/
theorem source_le (edge : Edge) (mem : edge ∈ edges ⟨graph.size, graph.size + 1⟩) :
    edge.source ≤ graph.size := by
  rcases wires.source_cases edge mem with same | ⟨p, memP, same⟩
  · exact same.le
  · exact same.trans_le (wires.known p memP _ p.out_mem).le

theorem source_lt (edge : Edge) (mem : edge ∈ edges ⟨graph.size, graph.size + 1⟩) :
    edge.source < graph.size + 2 :=
  (wires.source_le edge mem).trans_lt (Nat.lt_add_of_pos_right Nat.two_pos)

theorem hasEdge_iff (edge : Edge) :
    (store.wire edges graph).2.HasEdge edge ↔
      graph.HasEdge edge ∨ edge ∈ edges ⟨graph.size, graph.size + 1⟩ :=
  hasEdge_wire wires.source_lt edge

theorem hasEdge_cases (edge : Edge) (has : (store.wire edges graph).2.HasEdge edge) :
    graph.HasEdge edge ∨ ∃ p ∈ Part.withFresh wf rest operands,
      ∃ q ∈ Part.withFresh wf rest operands, Part.Joins edge p q := by
  rcases (wires.hasEdge_iff edge).mp has with old | new
  · exact Or.inl old
  · obtain ⟨p, memP, found⟩ := wires.joins edge new
    refine Or.inr ⟨p, ?_, found⟩
    rcases List.mem_cons.mp memP with rfl | memP
    · exact Part.entry_mem
    · exact Part.operand_mem memP

theorem language_le : (store.wire edges graph).2.language ⟨graph.size, graph.size + 1⟩ ≤ rest := by
  have le := Part.between_le_whole (wires.apart.withFresh wires.known wf rest)
    wires.hasEdge_cases Part.entry_mem Part.exit_mem le_rfl
  rw [Part.whole_entry] at le
  exact le

theorem owns : (store.wire edges graph).2.Owns ⟨graph.size, graph.size + 1⟩
    {s | ∃ p ∈ Part.withFresh wf rest operands, s ∈ p.owned} where
  start_mem := ⟨_, Part.entry_mem, rfl⟩
  out_mem := ⟨_, Part.exit_mem, rfl⟩
  start_ne_out := by simp
  lt_size := by
    rintro s ⟨p, mem, inP⟩
    rw [size_wire]
    simp only [Part.withFresh, List.mem_cons] at mem
    rcases mem with rfl | rfl | mem
    · exact (le_of_eq inP).trans_lt (Nat.lt_add_of_pos_right Nat.two_pos)
    · exact (le_of_eq inP).trans_lt (Nat.lt_succ_self _)
    · exact (wires.known p mem s inP).trans (Nat.lt_add_of_pos_right Nat.two_pos)
  closed := by
    intro edge has
    rcases wires.hasEdge_cases edge has with old | ⟨p, memP, q, memQ, joins⟩
    · constructor
      · rintro ⟨p, mem, inP⟩
        exact ⟨p, mem, (p.closed edge old).mp inP⟩
      · rintro ⟨p, mem, inP⟩
        exact ⟨p, mem, (p.closed edge old).mpr inP⟩
    · exact iff_of_true ⟨p, memP, joins.source_eq ▸ p.out_mem⟩
        ⟨q, memQ, joins.target_eq ▸ q.start_mem⟩
  sink := by
    intro edge has
    rcases (wires.hasEdge_iff edge).mp has with old | new
    · exact ((source_lt_of_hasEdge old).trans (Nat.lt_succ_self _)).ne
    · exact ((wires.source_le edge new).trans_lt (Nat.lt_succ_self _)).ne

/-! ### Lower bounds -/

theorem between_le (s t : StateId) :
    graph.between s t ≤ (store.wire edges graph).2.between s t :=
  between_mono (fun edge has => (wires.hasEdge_iff edge).mpr (Or.inl has)) s t

theorem enter {s t : StateId} (mem : .epsilon s t ∈ edges ⟨graph.size, graph.size + 1⟩)
    (u : StateId) :
    (store.wire edges graph).2.between t u ≤ (store.wire edges graph).2.between s u :=
  between_le_of_epsilon ((wires.hasEdge_iff _).mpr (Or.inr mem)) u

theorem leave {t u : StateId} (mem : .epsilon t u ∈ edges ⟨graph.size, graph.size + 1⟩)
    (s : StateId) : graph.between s t ≤ (store.wire edges graph).2.between s u := by
  have last : 1 ≤ (store.wire edges graph).2.between t u :=
    (one_le_between _ u).trans (wires.enter mem u)
  calc graph.between s t
      ≤ (store.wire edges graph).2.between s t := wires.between_le s t
    _ ≤ (store.wire edges graph).2.between s t * (store.wire edges graph).2.between t u :=
        le_mul_of_one_le_right' last
    _ ≤ (store.wire edges graph).2.between s u := between_mul_between_le ..

end Wires

/-! ## The operations -/

theorem wires_empty (wf : graph.WellFormed) : graph.Wires wf Fragment.emptyEdges 1 [] where
  apart := .nil
  known := by simp
  joins := by
    intro edge mem
    obtain rfl := List.mem_singleton.mp mem
    exact ⟨_, List.mem_cons_self, _, Part.exit_mem, rfl, rfl, by simp⟩

theorem wires_literal (wf : graph.WellFormed) (c : Char) :
    graph.Wires wf (Fragment.literalEdges c) {[c]} [] where
  apart := .nil
  known := by simp
  joins := by
    intro edge mem
    obtain rfl := List.mem_singleton.mp mem
    exact ⟨_, List.mem_cons_self, _, Part.exit_mem, rfl, rfl, by simp⟩

theorem wires_alternation (wf : graph.WellFormed) (left : graph.Owns first S)
    (right : graph.Owns second T) (disjoint : Disjoint S T) :
    graph.Wires wf (Fragment.alternationEdges first second)
      (graph.language first + graph.language second)
      [Part.ofOwns left 1, Part.ofOwns right 1] where
  apart := by simpa [Part.Apart, Part.ofOwns] using disjoint
  known := by
    simp only [List.forall_mem_cons]
    exact ⟨left.lt_size, right.lt_size, by simp⟩
  joins := by
    have inLeft : Part.ofOwns left 1 ∈ [Part.ofOwns left 1, Part.ofOwns right 1] := by simp
    have inRight : Part.ofOwns right 1 ∈ [Part.ofOwns left 1, Part.ofOwns right 1] := by simp
    simp only [Fragment.alternationEdges, List.forall_mem_cons]
    refine ⟨?_, ?_, ?_, ?_, by simp⟩
    · exact ⟨_, List.mem_cons_self, _, Part.operand_mem inLeft, rfl, rfl, by simp⟩
    · exact ⟨_, List.mem_cons_self, _, Part.operand_mem inRight, rfl, rfl, by simp⟩
    · exact ⟨_, List.mem_cons_of_mem _ inLeft, _, Part.exit_mem, rfl, rfl, by simp⟩
    · exact ⟨_, List.mem_cons_of_mem _ inRight, _, Part.exit_mem, rfl, rfl, by simp⟩

/-- What may be read behind one occurrence of the operand of a quantifier. -/
def behind (L : Language Char) : Quantifier → Language Char
  | .zeroOrMore => L∗
  | .oneOrMore => L∗
  | .zeroOrOne => 1

theorem wires_quantified (wf : graph.WellFormed) (owns : graph.Owns operand S) (q : Quantifier) :
    graph.Wires wf (fun new => Fragment.quantifiedEdges operand new q)
      (q.language (graph.language operand))
      [Part.ofOwns owns (behind (graph.language operand) q)] where
  apart := List.pairwise_singleton ..
  known := by
    simp only [List.forall_mem_cons]
    exact ⟨owns.lt_size, by simp⟩
  joins := by
    have mem := List.mem_singleton_self (Part.ofOwns owns (behind (graph.language operand) q))
    cases q with
    | zeroOrMore =>
      simp only [Fragment.quantifiedEdges, List.forall_mem_cons]
      refine ⟨?_, ?_, ?_, by simp⟩
      · refine ⟨_, List.mem_cons_self, _, Part.operand_mem mem, rfl, rfl, ?_⟩
        simpa [behind, Quantifier.language] using mul_kstar_le_kstar
      · refine ⟨_, List.mem_cons_self, _, Part.exit_mem, rfl, rfl, ?_⟩
        simp [Quantifier.language]
      · refine ⟨_, List.mem_cons_of_mem _ mem, _, Part.entry_mem, rfl, rfl, ?_⟩
        simp [behind, Quantifier.language]
    | oneOrMore =>
      simp only [Fragment.quantifiedEdges, List.forall_mem_cons]
      refine ⟨?_, ?_, ?_, by simp⟩
      · refine ⟨_, List.mem_cons_self, _, Part.operand_mem mem, rfl, rfl, ?_⟩
        simp [behind, Quantifier.language]
      · refine ⟨_, List.mem_cons_of_mem _ mem, _, Part.entry_mem, rfl, rfl, ?_⟩
        simpa [behind, Quantifier.language] using mul_kstar_le_kstar
      · refine ⟨_, List.mem_cons_of_mem _ mem, _, Part.exit_mem, rfl, rfl, ?_⟩
        simp [behind]
    | zeroOrOne =>
      simp only [Fragment.quantifiedEdges, List.forall_mem_cons]
      refine ⟨?_, ?_, ?_, by simp⟩
      · refine ⟨_, List.mem_cons_self, _, Part.operand_mem mem, rfl, rfl, ?_⟩
        simp [behind, Quantifier.language]
      · refine ⟨_, List.mem_cons_self, _, Part.exit_mem, rfl, rfl, ?_⟩
        simp [Quantifier.language]
      · refine ⟨_, List.mem_cons_of_mem _ mem, _, Part.exit_mem, rfl, rfl, ?_⟩
        simp [behind]

theorem language_empty (wf : graph.WellFormed) :
    ((thompson store).empty graph).2.language ((thompson store).empty graph).1 = 1 := by
  have wires := wires_empty wf
  apply le_antisymm wires.language_le
  exact (one_le_between _ _).trans (wires.enter List.mem_cons_self _)

theorem language_literal (wf : graph.WellFormed) (c : Char) :
    ((thompson store).literal c graph).2.language ((thompson store).literal c graph).1 =
      {[c]} := by
  have wires := wires_literal wf c
  apply le_antisymm wires.language_le
  have has := (wires.hasEdge_iff (.consuming graph.size c (graph.size + 1))).mpr
    (Or.inr List.mem_cons_self)
  exact (le_mul_of_one_le_right' (one_le_between _ _)).trans (label_mul_between_le has _)

theorem language_alternation (wf : graph.WellFormed) (left : graph.Owns first S)
    (right : graph.Owns second T) (disjoint : Disjoint S T) :
    ((thompson store).alternation first second graph).2.language
        ((thompson store).alternation first second graph).1 =
      graph.language first + graph.language second := by
  have wires := wires_alternation wf left right disjoint
  apply le_antisymm wires.language_le
  refine add_le ?_ ?_
  · exact (wires.leave (t := first.out) (by simp [Fragment.alternationEdges]) _).trans
      (wires.enter (by simp [Fragment.alternationEdges]) _)
  · exact (wires.leave (t := second.out) (by simp [Fragment.alternationEdges]) _).trans
      (wires.enter (by simp [Fragment.alternationEdges]) _)

theorem language_quantified (wf : graph.WellFormed) (owns : graph.Owns operand S)
    (q : Quantifier) :
    ((thompson store).quantified q operand graph).2.language
        ((thompson store).quantified q operand graph).1 =
      q.language (graph.language operand) := by
  have wires := wires_quantified wf owns q
  apply le_antisymm wires.language_le
  cases q with
  | zeroOrMore =>
    -- Once around the loop through the entry, any number of times, then out.
    have round := (wires.leave (t := operand.out) (u := graph.size) (by
      simp [Fragment.quantifiedEdges]) operand.start).trans
      (wires.enter (s := graph.size) (by simp [Fragment.quantifiedEdges]) _)
    refine kstar_le_of_mul_le_right ?_ ?_
    · exact (one_le_between _ _).trans (wires.enter (by simp [Fragment.quantifiedEdges]) _)
    · exact (mul_le_mul_left round _).trans (between_mul_between_le ..)
  | oneOrMore =>
    -- Once to the exit of the operand, then any number of times around from there, then out.
    have first := (wires.between_le operand.start operand.out).trans
      (wires.enter (s := graph.size) (by simp [Fragment.quantifiedEdges]) _)
    have round := first.trans
      (wires.enter (s := operand.out) (by simp [Fragment.quantifiedEdges]) operand.out)
    refine (mul_le_mul' first ?_).trans (between_mul_between_le ..)
    refine kstar_le_of_mul_le_right ?_ ?_
    · exact (one_le_between _ _).trans (wires.enter (by simp [Fragment.quantifiedEdges]) _)
    · exact (mul_le_mul_left round _).trans (between_mul_between_le ..)
  | zeroOrOne =>
    refine add_le ?_ ?_
    · exact (one_le_between _ _).trans (wires.enter (by simp [Fragment.quantifiedEdges]) _)
    · exact (wires.leave (t := operand.out) (by simp [Fragment.quantifiedEdges]) _).trans
        (wires.enter (by simp [Fragment.quantifiedEdges]) _)

/-! ## Concatenation -/

theorem size_concat (first second : Fragment) (graph : Graph) :
    ((thompson store).concat first second graph).2.size = graph.size :=
  size_addEdge ..

section

variable (left : graph.Owns first S) (right : graph.Owns second T) (disjoint : Disjoint S T)

include left

theorem hasEdge_concat (edge : Edge) :
    ((thompson store).concat first second graph).2.HasEdge edge ↔
      graph.HasEdge edge ∨ edge = .epsilon first.out second.start := by
  have known : (Edge.epsilon first.out second.start).source < graph.size :=
    left.lt_size _ left.out_mem
  exact hasEdge_addEdge known edge

include right

theorem concat_cases (edge : Edge)
    (has : ((thompson store).concat first second graph).2.HasEdge edge) :
    graph.HasEdge edge ∨
      ∃ p ∈ [Part.ofOwns left (graph.language second), Part.ofOwns right 1],
        ∃ q ∈ [Part.ofOwns left (graph.language second), Part.ofOwns right 1],
          Part.Joins edge p q := by
  rcases (hasEdge_concat left edge).mp has with old | rfl
  · exact Or.inl old
  · exact Or.inr ⟨_, List.mem_cons_self, _, List.mem_cons_of_mem _ List.mem_cons_self,
      rfl, rfl, by simp⟩

include disjoint

theorem owns_concat :
    ((thompson store).concat first second graph).2.Owns
      ((thompson store).concat first second graph).1 (S ∪ T) where
  start_mem := Or.inl left.start_mem
  out_mem := Or.inr right.out_mem
  start_ne_out same :=
    Set.disjoint_left.mp disjoint left.start_mem (same ▸ right.out_mem)
  lt_size s mem := by
    rw [size_concat]
    exact mem.elim (left.lt_size s) (right.lt_size s)
  closed edge has := by
    rcases (hasEdge_concat left edge).mp has with old | rfl
    · exact or_congr (left.closed edge old) (right.closed edge old)
    · exact iff_of_true (Or.inl left.out_mem) (Or.inr right.start_mem)
  sink edge has := by
    rcases (hasEdge_concat left edge).mp has with old | rfl
    · exact right.sink edge old
    · intro same
      have shared : first.out ∈ T := Eq.mpr (congrArg (· ∈ T) same) right.out_mem
      exact Set.disjoint_left.mp disjoint left.out_mem shared

theorem language_concat :
    ((thompson store).concat first second graph).2.language
        ((thompson store).concat first second graph).1 =
      graph.language first * graph.language second := by
  have has (edge : Edge) : ((thompson store).concat first second graph).2.HasEdge edge ↔
      graph.HasEdge edge ∨ edge = .epsilon first.out second.start :=
    hasEdge_concat left edge
  have grown := between_mono fun edge old => (has edge).mpr (Or.inl old)
  apply le_antisymm
  · have apart : Part.Apart [Part.ofOwns left (graph.language second), Part.ofOwns right 1] := by
      simpa [Part.Apart, Part.ofOwns] using disjoint
    exact Part.between_le_whole apart (concat_cases left right) List.mem_cons_self
      (List.mem_cons_of_mem _ List.mem_cons_self) le_rfl
  · have bridge := between_le_of_epsilon ((has _).mpr (Or.inr rfl)) second.out
    calc graph.language first * graph.language second
        ≤ ((thompson store).concat first second graph).2.language first *
            ((thompson store).concat first second graph).2.language second :=
          mul_le_mul' (grown _ _) (grown _ _)
      _ ≤ ((thompson store).concat first second graph).2.language first *
            ((thompson store).concat first second graph).2.between first.out second.out :=
          mul_le_mul_right bridge _
      _ ≤ ((thompson store).concat first second graph).2.language
            ((thompson store).concat first second graph).1 := between_mul_between_le ..

end

end Graph

end RegularPattern
