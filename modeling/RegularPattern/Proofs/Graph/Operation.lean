import RegularPattern.Proofs.Graph.Thompson

/-!
# Operations beside other parts of a graph

The operands of an operation may stand anywhere in a graph that holds other fragments as well. The
operation changes none of the states that its operands do not own, and the fragment that it makes
owns what the operands owned and all fresh states. No edge can then lead from it to another
fragment, so every fragment that is apart from the operands stays what it was.

## Main definitions

* `Graph.Grows` — a graph that has only been added to.
* `Graph.Yields` — what an operation makes of operands that own given states.
-/

namespace RegularPattern.Graph

open scoped Computability

variable {before middle after graph : Graph} {first second operand fragment : Fragment}
  {S T used : Set StateId} {L : Language Char} {made : Fragment × Graph}

/-! ## Graphs that grow -/

/-- States have been added, and the old ones have not changed. -/
structure Grows (before after : Graph) : Prop where
  size_le : before.size ≤ after.size
  state_eq : ∀ id < before.size, after.state id = before.state id

theorem Grows.refl (graph : Graph) : graph.Grows graph := ⟨le_rfl, fun _ _ => rfl⟩

theorem Grows.trans (early : before.Grows middle) (late : middle.Grows after) :
    before.Grows after where
  size_le := early.size_le.trans late.size_le
  state_eq id lt :=
    (late.state_eq id (lt.trans_le early.size_le)).trans (early.state_eq id lt)

theorem Grows.hasEdge_iff (grown : before.Grows after) {edge : Edge}
    (lt : edge.source < before.size) : after.HasEdge edge ↔ before.HasEdge edge :=
  hasEdge_congr (grown.state_eq _ lt)

/-! ## Fragments that stay as they are -/

/-- A fragment stays what it was if no edge to or from its states comes or goes. -/
theorem Owns.of_same_edges (owns : graph.Owns fragment S) (size_le : graph.size ≤ after.size)
    (same : ∀ edge, edge.source ∈ S ∨ edge.target ∈ S →
      (after.HasEdge edge ↔ graph.HasEdge edge)) :
    after.Owns fragment S ∧ after.language fragment = graph.language fragment := by
  have closed : after.Closed S := by
    intro edge has
    by_cases touches : edge.source ∈ S ∨ edge.target ∈ S
    · exact owns.closed edge ((same edge touches).mp has)
    · exact iff_of_false (fun mem => touches (Or.inl mem)) (fun mem => touches (Or.inr mem))
  refine ⟨⟨owns.start_mem, owns.out_mem, owns.start_ne_out, ?_, closed, ?_⟩, ?_⟩
  · exact fun s mem => (owns.lt_size s mem).trans_le size_le
  · intro edge has leaves
    have touches : edge.source ∈ S := leaves ▸ owns.out_mem
    exact owns.sink edge ((same edge (Or.inl touches)).mp has) leaves
  · apply le_antisymm
    · intro word path
      refine Path.transfer S path owns.start_mem fun edge mem has => ?_
      exact ⟨(same edge (Or.inl mem)).mp has, (closed edge has).mp mem⟩
    · intro word path
      refine Path.transfer S path owns.start_mem fun edge mem has => ?_
      exact ⟨(same edge (Or.inl mem)).mpr has, (owns.closed edge has).mp mem⟩

/-- What an operation makes of operands that own the states `used`: a fragment of its language,
which owns these and all fresh states, while everything else stays as it is. -/
structure Yields (before : Graph) (used : Set StateId) (L : Language Char)
    (made : Fragment × Graph) : Prop where
  size_le : before.size ≤ made.2.size
  state_eq : ∀ id < before.size, id ∉ used → made.2.state id = before.state id
  wellFormed : made.2.WellFormed
  owns : made.2.Owns made.1 (used ∪ Set.Ico before.size made.2.size)
  language_eq : made.2.language made.1 = L
  others : ∀ fragment states, before.Owns fragment states → Disjoint states used →
    made.2.Owns fragment states ∧ made.2.language fragment = before.language fragment

/-- Fragments apart from the operands need not be looked at: the new fragment owns all states that
have changed, so no new edge leads to or from anywhere else. -/
theorem Yields.of_owns (size_le : before.size ≤ made.2.size)
    (state_eq : ∀ id < before.size, id ∉ used → made.2.state id = before.state id)
    (wellFormed : made.2.WellFormed)
    (owns : made.2.Owns made.1 (used ∪ Set.Ico before.size made.2.size))
    (language_eq : made.2.language made.1 = L) : before.Yields used L made where
  size_le := size_le
  state_eq := state_eq
  wellFormed := wellFormed
  owns := owns
  language_eq := language_eq
  others fragment states ownsOther disjoint := by
    have old_edge {edge : Edge} (lt : edge.source < before.size) (unused : edge.source ∉ used) :
        made.2.HasEdge edge ↔ before.HasEdge edge := hasEdge_congr (state_eq _ lt unused)
    have apart {s : StateId} (mem : s ∈ states) : s ∉ used ∪ Set.Ico before.size made.2.size := by
      rintro (inUsed | fresh)
      · exact Set.disjoint_left.mp disjoint mem inUsed
      · exact absurd (ownsOther.lt_size s mem) (Nat.not_lt.mpr fresh.1)
    have from_inside {edge : Edge} (mem : edge.source ∈ states) :
        made.2.HasEdge edge ↔ before.HasEdge edge :=
      old_edge (ownsOther.lt_size _ mem) fun inUsed => apart mem (Or.inl inUsed)
    refine ownsOther.of_same_edges size_le fun edge touches => ?_
    rcases touches with leaves | enters
    · exact from_inside leaves
    · refine ⟨fun has => ?_, fun has => ?_⟩
      · have outside := mt (owns.closed edge has).mp (apart enters)
        have lt : edge.source < before.size := Nat.lt_of_not_le fun ge =>
          outside (Or.inr ⟨ge, source_lt_of_hasEdge has⟩)
        exact (old_edge lt fun inUsed => outside (Or.inl inUsed)).mp has
      · exact (from_inside ((ownsOther.closed edge has).mpr enters)).mpr has

/-! ## Fresh states with edges -/

namespace Wires

variable {wf : graph.WellFormed} {edges : Fragment → List Edge} {rest : Language Char}
  {operands : List (Part graph)}

/-- The new fragment owns the states of the operands and the two fresh ones. -/
theorem owned_eq_union (cover : ∀ s, (∃ p ∈ operands, s ∈ p.owned) ↔ s ∈ used) :
    {s | ∃ p ∈ Part.withFresh wf rest operands, s ∈ p.owned} =
      used ∪ Set.Ico graph.size (store.wire edges graph).2.size := by
  ext s
  simp only [Part.withFresh, List.mem_cons, exists_eq_or_imp, Set.mem_ofPred_eq, cover,
    size_wire, Set.mem_union, Set.mem_Ico]
  change s = graph.size ∨ s = graph.size + 1 ∨ _ ↔ _
  grind

variable (wires : graph.Wires wf edges rest operands)

include wires

theorem wellFormed : (store.wire edges graph).2.WellFormed := by
  intro edge has
  rcases (wires.hasEdge_iff edge).mp has with old | new
  · rw [size_wire]
    exact (wf edge old).trans (Nat.lt_add_of_pos_right Nat.two_pos)
  · obtain ⟨p, memP, q, memQ, joins⟩ := wires.joins edge new
    exact wires.owns.lt_size _ ⟨q, memQ, joins.target_eq ▸ q.start_mem⟩

/-- Only the new entry and the exits of operands gain edges. -/
theorem state_eq {id : StateId} (ne : id ≠ graph.size) (free : ∀ p ∈ operands, id ≠ p.out) :
    (store.wire edges graph).2.state id = graph.state id := by
  apply state_wire wires.source_lt
  rintro edge mem rfl
  rcases wires.source_cases edge mem with same | ⟨p, memP, same⟩
  · exact ne same
  · exact free p memP same

theorem yields (cover : ∀ s, (∃ p ∈ operands, s ∈ p.owned) ↔ s ∈ used)
    (language_eq : (store.wire edges graph).2.language ⟨graph.size, graph.size + 1⟩ = L) :
    graph.Yields used L (store.wire edges graph) := by
  refine .of_owns ?_ ?_ wires.wellFormed ?_ language_eq
  · rw [size_wire]
    exact Nat.le_add_right _ _
  · intro id lt unused
    exact wires.state_eq lt.ne fun p mem same =>
      unused ((cover id).mp ⟨p, mem, same ▸ p.out_mem⟩)
  · have owns := wires.owns
    rwa [owned_eq_union cover] at owns

end Wires

/-! ## The operations -/

theorem yields_empty (wf : graph.WellFormed) :
    graph.Yields ∅ 1 ((thompson store).empty graph) :=
  (wires_empty wf).yields (by simp) (language_empty wf)

theorem yields_literal (wf : graph.WellFormed) (c : Char) :
    graph.Yields ∅ {[c]} ((thompson store).literal c graph) :=
  (wires_literal wf c).yields (by simp) (language_literal wf c)

theorem yields_quantified (wf : graph.WellFormed) (owns : graph.Owns operand S)
    (q : Quantifier) :
    graph.Yields S (q.language (graph.language operand))
      ((thompson store).quantified q operand graph) :=
  (wires_quantified wf owns q).yields (by simp [Part.ofOwns]) (language_quantified wf owns q)

section

variable (wf : graph.WellFormed) (left : graph.Owns first S) (right : graph.Owns second T)
  (disjoint : Disjoint S T)

include wf left right disjoint

theorem yields_alternation :
    graph.Yields (S ∪ T) (graph.language first + graph.language second)
      ((thompson store).alternation first second graph) :=
  (wires_alternation wf left right disjoint).yields (by simp [Part.ofOwns])
    (language_alternation wf left right disjoint)

theorem yields_concat :
    graph.Yields (S ∪ T) (graph.language first * graph.language second)
      ((thompson store).concat first second graph) := by
  refine .of_owns (size_concat first second graph).ge ?_ ?_ ?_
    (language_concat left right disjoint)
  · intro id lt unused
    have known : (Edge.epsilon first.out second.start).source < graph.size :=
      left.lt_size _ left.out_mem
    have ne : id ≠ first.out := fun same => unused (Or.inl (same ▸ left.out_mem))
    exact (state_addEdge known id).trans (if_neg ne)
  · intro edge has
    rw [size_concat]
    rcases (hasEdge_concat left edge).mp has with old | rfl
    · exact wf edge old
    · exact right.lt_size _ right.start_mem
  · rw [size_concat, Set.Ico_self, Set.union_empty]
    exact owns_concat left right disjoint

end

/-- Whatever else a graph holds, every operation makes a fragment of the language of the operation
of fragments that own their states, and leaves all other fragments as they are. -/
theorem yields_operations (wf : graph.WellFormed) :
    graph.Yields ∅ 1 ((thompson store).empty graph) ∧
    (∀ c, graph.Yields ∅ {[c]} ((thompson store).literal c graph)) ∧
    (∀ first second S T, graph.Owns first S → graph.Owns second T → Disjoint S T →
      graph.Yields (S ∪ T) (graph.language first * graph.language second)
          ((thompson store).concat first second graph) ∧
        graph.Yields (S ∪ T) (graph.language first + graph.language second)
          ((thompson store).alternation first second graph)) ∧
    ∀ operand S, graph.Owns operand S →
      graph.Yields S (graph.language operand)∗
          ((thompson store).quantified .zeroOrMore operand graph) ∧
        graph.Yields S (graph.language operand * (graph.language operand)∗)
          ((thompson store).quantified .oneOrMore operand graph) ∧
        graph.Yields S (1 + graph.language operand)
          ((thompson store).quantified .zeroOrOne operand graph) := by
  refine ⟨yields_empty wf, yields_literal wf, ?_, ?_⟩
  · intro first second S T left right disjoint
    exact ⟨yields_concat wf left right disjoint, yields_alternation wf left right disjoint⟩
  · intro operand S owns
    exact ⟨yields_quantified wf owns .zeroOrMore, yields_quantified wf owns .oneOrMore,
      yields_quantified wf owns .zeroOrOne⟩

/-- A loop around one letter, whose entry is entered again from inside, and beside it another
letter. -/
def loopAndLetter : Graph :=
  let letter := (thompson store).literal 'a' {}
  let loop := (thompson store).quantified .zeroOrMore letter.1 letter.2
  ((thompson store).literal 'b' loop.2).2

theorem owns_loopAndLetter :
    loopAndLetter.WellFormed ∧ loopAndLetter.Owns ⟨2, 3⟩ (Set.Ico 0 4) ∧
      loopAndLetter.Owns ⟨4, 5⟩ (Set.Ico 4 6) ∧
      loopAndLetter.language ⟨2, 3⟩ = {['a']}∗ ∧ loopAndLetter.language ⟨4, 5⟩ = {['b']} := by
  have letter := yields_literal (by decide : ({} : Graph).WellFormed) 'a'
  have loop := yields_quantified letter.wellFormed letter.owns .zeroOrMore
  have beside := yields_literal loop.wellFormed 'b'
  obtain ⟨owns, language_eq⟩ := beside.others _ _ loop.owns (Set.disjoint_empty _)
  have below : (∅ ∪ Set.Ico 0 2) ∪ Set.Ico 2 4 = (Set.Ico 0 4 : Set StateId) := by
    rw [Set.empty_union, Set.Ico_union_Ico_eq_Ico (Nat.zero_le 2) (by decide)]
  refine ⟨by decide, below ▸ owns, ?_, ?_, beside.language_eq⟩
  · exact Set.empty_union (Set.Ico 4 6 : Set StateId) ▸ beside.owns
  · rw [loop.language_eq, letter.language_eq] at language_eq
    exact language_eq

theorem yields_operations_of_loop :
    loopAndLetter.WellFormed ∧ loopAndLetter.Owns ⟨2, 3⟩ (Set.Ico 0 4) ∧
      loopAndLetter.Owns ⟨4, 5⟩ (Set.Ico 4 6) ∧
      Disjoint (Set.Ico 0 4 : Set StateId) (Set.Ico 4 6) ∧
      loopAndLetter.Yields (Set.Ico 0 4 ∪ Set.Ico 4 6) ({['a']}∗ * {['b']})
        ((thompson store).concat ⟨2, 3⟩ ⟨4, 5⟩ loopAndLetter) ∧
      loopAndLetter.Yields (Set.Ico 0 4 ∪ Set.Ico 4 6) ({['a']}∗ + {['b']})
        ((thompson store).alternation ⟨2, 3⟩ ⟨4, 5⟩ loopAndLetter) ∧
      loopAndLetter.Yields (Set.Ico 0 4) ({['a']}∗ * ({['a']}∗)∗)
        ((thompson store).quantified .oneOrMore ⟨2, 3⟩ loopAndLetter) := by
  obtain ⟨wf, left, right, language_left, language_right⟩ := owns_loopAndLetter
  have disjoint : Disjoint (Set.Ico 0 4 : Set StateId) (Set.Ico 4 6) :=
    Set.Ico_disjoint_Ico_same
  obtain ⟨-, -, pairs, singles⟩ := yields_operations wf
  obtain ⟨concat, alternation⟩ := pairs _ _ _ _ left right disjoint
  obtain ⟨-, oneOrMore, -⟩ := singles _ _ left
  rw [language_left, language_right] at concat alternation
  rw [language_left] at oneOrMore
  exact ⟨wf, left, right, disjoint, concat, alternation, oneOrMore⟩

end RegularPattern.Graph
