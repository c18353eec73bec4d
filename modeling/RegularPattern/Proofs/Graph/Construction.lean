import RegularPattern.Proofs.Graph.Operation
import RegularPattern.Proofs.Pattern.Language

/-!
# Construction from derivations

Thompson's construction over a derivation, into a graph that may hold other states already: the old
states keep their edges as they are, all that is new belongs to one fragment, and its language is
that of the derivation.

## Main definitions

* `Graph.Built` — what a fragment is when it has just been built.
* `Graph.Constructed` — the operations of the construction, one after the other.
-/

namespace RegularPattern.Graph

variable {before middle after graph : Graph} {first second operand : Fragment}
  {L M : Language Char}

/-- A fragment made of all that has been added to a graph. -/
structure Built (before after : Graph) (fragment : Fragment) (L : Language Char) : Prop where
  grows : before.Grows after
  wellFormed : after.WellFormed
  owns : after.Owns fragment (Set.Ico before.size after.size)
  language_eq : after.language fragment = L

/-- Operands that make up all that is new do so together with the two fresh states. -/
theorem Wires.owned_eq {wf : graph.WellFormed} {edges : Fragment → List Edge}
    {rest : Language Char} {operands : List (Part graph)} (grown : before.Grows graph)
    (cover : ∀ s, (∃ p ∈ operands, s ∈ p.owned) ↔ before.size ≤ s ∧ s < graph.size) :
    {s | ∃ p ∈ Part.withFresh wf rest operands, s ∈ p.owned} =
      Set.Ico before.size (store.wire edges graph).2.size := by
  have fresh : graph.size ≤ (store.wire edges graph).2.size := by simp
  rw [← Set.Ico_union_Ico_eq_Ico grown.size_le fresh]
  exact owned_eq_union cover

/-- An operation on all that is new makes one fragment of all that is new. -/
theorem Yields.built {made : Fragment × Graph} {used : Set StateId}
    (yields : graph.Yields used L made) (grown : before.Grows graph)
    (all : used = Set.Ico before.size graph.size) : before.Built made.2 made.1 L where
  grows := by
    refine ⟨grown.size_le.trans yields.size_le, fun id lt => ?_⟩
    have unused : id ∉ used := fun mem => absurd (all ▸ mem).1 (Nat.not_le.mpr lt)
    exact (yields.state_eq id (lt.trans_le grown.size_le) unused).trans (grown.state_eq id lt)
  wellFormed := yields.wellFormed
  owns := by
    have owns := yields.owns
    rwa [all, Set.Ico_union_Ico_eq_Ico grown.size_le yields.size_le] at owns
  language_eq := yields.language_eq

/-- What is built has no edges to or from what was there before. -/
theorem Built.hasEdge_iff (built : before.Built after operand L) {edge : Edge}
    (touches : edge.source < before.size ∨ edge.target < before.size) :
    after.HasEdge edge ↔ before.HasEdge edge := by
  by_cases old : edge.source < before.size
  · exact built.grows.hasEdge_iff old
  · refine iff_of_false (fun has => ?_) fun has => old (source_lt_of_hasEdge has)
    have new : edge.source ∈ Set.Ico before.size after.size :=
      ⟨Nat.le_of_not_lt old, source_lt_of_hasEdge has⟩
    have inside := (built.owns.closed edge has).mp new
    exact absurd (touches.resolve_left old) (Nat.not_lt.mpr inside.1)

/-! ## Operands that were built one after the other -/

namespace Built

variable (left : before.Built middle first L) (right : middle.Built after second M)

include left right

theorem keeps_left : after.Owns first (Set.Ico before.size middle.size) ∧
    after.language first = middle.language first :=
  left.owns.of_same_edges right.grows.size_le fun _ touches =>
    right.hasEdge_iff (touches.imp And.right And.right)

theorem owns_left : after.Owns first (Set.Ico before.size middle.size) :=
  (left.keeps_left right).1

theorem language_left : after.language first = L :=
  (left.keeps_left right).2.trans left.language_eq

theorem union_eq : Set.Ico before.size middle.size ∪ Set.Ico middle.size after.size =
    Set.Ico before.size after.size :=
  Set.Ico_union_Ico_eq_Ico left.grows.size_le right.grows.size_le

theorem mem_owned_iff (K : Language Char) (s : StateId) :
    (∃ p ∈ [Part.ofOwns (left.owns_left right) K, Part.ofOwns right.owns K], s ∈ p.owned) ↔
      before.size ≤ s ∧ s < after.size := by
  have same := Set.ext_iff.mp (left.union_eq right) s
  simpa [Part.ofOwns] using same

theorem concat : before.Built ((thompson store).concat first second after).2
    ((thompson store).concat first second after).1 (L * M) := by
  have yields := yields_concat right.wellFormed (left.owns_left right) right.owns
    Set.Ico_disjoint_Ico_same
  rw [left.language_left right, right.language_eq] at yields
  exact yields.built (left.grows.trans right.grows) (left.union_eq right)

theorem alternation : before.Built ((thompson store).alternation first second after).2
    ((thompson store).alternation first second after).1 (L + M) := by
  have yields := yields_alternation right.wellFormed (left.owns_left right) right.owns
    Set.Ico_disjoint_Ico_same
  rw [left.language_left right, right.language_eq] at yields
  exact yields.built (left.grows.trans right.grows) (left.union_eq right)

end Built

/-! ## All of a derivation -/

theorem built_empty (wf : graph.WellFormed) :
    graph.Built ((thompson store).empty graph).2 ((thompson store).empty graph).1 1 :=
  (yields_empty wf).built (.refl graph) (Set.Ico_self _).symm

theorem built_literal (wf : graph.WellFormed) (c : Char) :
    graph.Built ((thompson store).literal c graph).2 ((thompson store).literal c graph).1
      {[c]} :=
  (yields_literal wf c).built (.refl graph) (Set.Ico_self _).symm

theorem Built.mem_owned_iff_of_single (built : before.Built after operand L) (K : Language Char)
    (s : StateId) :
    (∃ p ∈ [Part.ofOwns built.owns K], s ∈ p.owned) ↔ before.size ≤ s ∧ s < after.size := by
  simp [Part.ofOwns]

theorem Built.quantified (built : before.Built after operand L) (q : Quantifier) :
    before.Built ((thompson store).quantified q operand after).2
      ((thompson store).quantified q operand after).1 (q.language L) := by
  have yields := yields_quantified built.wellFormed built.owns q
  rw [built.language_eq] at yields
  exact yields.built built.grows rfl

/-- What is built of a derivation reads the language of the derivation. -/
theorem built_build {rule : Rule} (tree : Tree rule) (wf : graph.WellFormed) :
    graph.Built (tree.build (thompson store) graph).2 (tree.build (thompson store) graph).1
      tree.language := by
  induction tree generalizing graph with
  | plain c => exact built_literal wf c
  | escaped c =>
    rw [Tree.language_escaped]
    exact built_literal wf (Reader.unescape c)
  | group inner ih => exact ih wf
  | bare atom ih => exact ih wf
  | quantified atom q ih => exact (ih wf).quantified q
  | nothing => exact built_empty wf
  | append init last ihInit ihLast =>
    cases init with
    | nothing =>
      rw [Tree.language_append_nothing]
      exact ihLast wf
    | append init middle =>
      have left := ihInit wf
      exact left.concat (ihLast left.wellFormed)
  | single term ih => exact ih wf
  | bar init last ihInit ihLast =>
    have left := ihInit wf
    exact left.alternation (ihLast left.wellFormed)

/-! ## The operations one after the other -/

/-- What operations make of a graph, each applied to the fragments that were made right before it.
What holds of every derivation is proved by induction on this, with one case for each operation. -/
inductive Constructed : Graph → Graph → Fragment → Prop where
  | empty {graph : Graph} (wf : graph.WellFormed) :
      Constructed graph ((thompson store).empty graph).2 ((thompson store).empty graph).1
  | literal {graph : Graph} (wf : graph.WellFormed) (c : Char) :
      Constructed graph ((thompson store).literal c graph).2 ((thompson store).literal c graph).1
  | concat {before middle after : Graph} {first second : Fragment}
      (left : Constructed before middle first) (right : Constructed middle after second) :
      Constructed before ((thompson store).concat first second after).2
        ((thompson store).concat first second after).1
  | alternation {before middle after : Graph} {first second : Fragment}
      (left : Constructed before middle first) (right : Constructed middle after second) :
      Constructed before ((thompson store).alternation first second after).2
        ((thompson store).alternation first second after).1
  | quantified {before after : Graph} {operand : Fragment}
      (inner : Constructed before after operand) (q : Quantifier) :
      Constructed before ((thompson store).quantified q operand after).2
        ((thompson store).quantified q operand after).1

theorem Constructed.exists_built {fragment : Fragment}
    (made : Constructed before after fragment) : ∃ L, before.Built after fragment L := by
  induction made with
  | empty wf => exact ⟨_, built_empty wf⟩
  | literal wf c => exact ⟨_, built_literal wf c⟩
  | concat _ _ ihLeft ihRight =>
    obtain ⟨L, left⟩ := ihLeft
    obtain ⟨M, right⟩ := ihRight
    exact ⟨_, left.concat right⟩
  | alternation _ _ ihLeft ihRight =>
    obtain ⟨L, left⟩ := ihLeft
    obtain ⟨M, right⟩ := ihRight
    exact ⟨_, left.alternation right⟩
  | quantified _ q ih =>
    obtain ⟨L, inner⟩ := ih
    exact ⟨_, inner.quantified q⟩

theorem constructed_build {rule : Rule} (tree : Tree rule) (wf : graph.WellFormed) :
    Constructed graph (tree.build (thompson store) graph).2
      (tree.build (thompson store) graph).1 := by
  induction tree generalizing graph with
  | plain c => exact .literal wf c
  | escaped c => exact .literal wf (Reader.unescape c)
  | group inner ih => exact ih wf
  | bare atom ih => exact ih wf
  | quantified atom q ih => exact .quantified (ih wf) q
  | nothing => exact .empty wf
  | append init last ihInit ihLast =>
    cases init with
    | nothing => exact ihLast wf
    | append init middle =>
      have left := ihInit wf
      exact .concat left (ihLast (built_build _ wf).wellFormed)
  | single term ih => exact ih wf
  | bar init last ihInit ihLast =>
    have left := ihInit wf
    exact .alternation left (ihLast (built_build init wf).wellFormed)

end RegularPattern.Graph
