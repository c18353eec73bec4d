import RegularPattern.Proofs.Graph.Construction

/-!
# The shape of what is constructed

Thompson's construction keeps states narrow: apart from the exit, which has no edges, a state has
one consuming edge or else one or two epsilon edges. An operation adds edges to the exits of its
operands, which had none before, and leads into their entries, which were entered at most once.

## Main definitions

* `State.Branching` — the edges that a state other than the exit has.
* `Graph.entering` — the edges that enter a state.
* `Graph.Shaped` — the shape of a fragment.
-/

namespace RegularPattern

/-- One consuming edge and no other, or one or two epsilon edges, to different states, and no
other. -/
def State.Branching (state : State) : Prop :=
  (state.epsilons = [] ∧ ∃ c target, state.transitions = [(c, [target])]) ∨
    (state.transitions = [] ∧ ((∃ target, state.epsilons = [target]) ∨
      ∃ first second, first ≠ second ∧ state.epsilons = [first, second]))

namespace State

theorem branching_consuming (s : StateId) (c : Char) (t : StateId) :
    (({} : State).addEdge (.consuming s c t)).Branching :=
  Or.inl ⟨rfl, c, t, rfl⟩

theorem branching_epsilon (s t : StateId) : (({} : State).addEdge (.epsilon s t)).Branching :=
  Or.inr ⟨rfl, Or.inl ⟨t, rfl⟩⟩

theorem branching_epsilons (s : StateId) {t u : StateId} (ne : t ≠ u) :
    ((({} : State).addEdge (.epsilon s t)).addEdge (.epsilon s u)).Branching := by
  refine Or.inr ⟨rfl, Or.inr ⟨t, u, ne, ?_⟩⟩
  simp [addEdge, addEpsilon, appendNew, ne.symm]

end State

/-! ## The new edges of one operation -/

namespace Fragment

/-- Edges from a fresh entry, and from exits that have no edges yet, to entries of operands and to
fresh states: few enough at each state that the result has the shape of a fragment. Each touches a
fresh state, so no edge was there before. -/
structure Narrow (new : Fragment) (outs starts : List StateId) (edges : List Edge) : Prop where
  leaving : ∀ id ∈ new.start :: outs,
    ((edges.filter (·.source = id)).foldl State.addEdge {}).Branching
  loopless : ∀ edge ∈ edges, edge.source ≠ edge.target
  starts_le : ∀ id ∈ new.start :: starts, (edges.filter (·.target = id)).length ≤ 1
  out_le : (edges.filter (·.target = new.out)).length ≤ 2
  nodup : edges.Nodup
  touches : ∀ edge ∈ edges, new.start ≤ edge.source ∨ new.start ≤ edge.target

variable {first second operand : Fragment} {n : StateId}

theorem Narrow.empty (n : StateId) : Narrow ⟨n, n + 1⟩ [] [] (emptyEdges ⟨n, n + 1⟩) where
  leaving := by simpa [emptyEdges] using State.branching_epsilon n (n + 1)
  loopless := by simp [emptyEdges]
  starts_le := by simp [emptyEdges]
  out_le := by simp [emptyEdges]
  nodup := by simp [emptyEdges]
  touches := by simp [emptyEdges]

theorem Narrow.literal (n : StateId) (c : Char) :
    Narrow ⟨n, n + 1⟩ [] [] (literalEdges c ⟨n, n + 1⟩) where
  leaving := by simpa [literalEdges] using State.branching_consuming n c (n + 1)
  loopless := by simp [literalEdges]
  starts_le := by simp [literalEdges]
  out_le := by simp [literalEdges]
  nodup := by simp [literalEdges]
  touches := by simp [literalEdges]

theorem Narrow.alternation (first_start : first.start < n) (first_out : first.out < n)
    (second_start : second.start < n) (second_out : second.out < n)
    (starts : first.start ≠ second.start) (outs : first.out ≠ second.out) :
    Narrow ⟨n, n + 1⟩ [first.out, second.out] [first.start, second.start]
      (alternationEdges first second ⟨n, n + 1⟩) where
  leaving := by
    have entry := State.branching_epsilons n starts
    have left := State.branching_epsilon first.out (n + 1)
    have right := State.branching_epsilon second.out (n + 1)
    simp [alternationEdges, first_out.ne, first_out.ne', second_out.ne, second_out.ne',
      outs, outs.symm, entry, left, right]
  loopless := by
    have lt := first_out.trans (Nat.lt_succ_self n)
    have lt' := second_out.trans (Nat.lt_succ_self n)
    simp [alternationEdges, first_start.ne', second_start.ne', lt.ne, lt'.ne]
  starts_le := by
    have lt := first_start.trans (Nat.lt_succ_self n)
    have lt' := second_start.trans (Nat.lt_succ_self n)
    simp [alternationEdges, first_start.ne, second_start.ne, lt.ne', lt'.ne', starts, starts.symm]
  out_le := by
    have lt := first_start.trans (Nat.lt_succ_self n)
    have lt' := second_start.trans (Nat.lt_succ_self n)
    simp [alternationEdges, lt.ne, lt'.ne]
  nodup := by
    simp [alternationEdges, first_out.ne', second_out.ne', starts, outs]
  touches := by simp [alternationEdges]

theorem Narrow.quantified (start_lt : operand.start < n) (out_lt : operand.out < n)
    (q : Quantifier) :
    Narrow ⟨n, n + 1⟩ [operand.out] [operand.start]
      (quantifiedEdges operand ⟨n, n + 1⟩ q) where
  leaving := by
    have lt := start_lt.trans (Nat.lt_succ_self n)
    have one (s t : StateId) := State.branching_epsilon s t
    have skip := State.branching_epsilons n lt.ne
    have back := State.branching_epsilons operand.out (Nat.lt_succ_self n).ne
    cases q <;>
      simp [quantifiedEdges, out_lt.ne, out_lt.ne', one, skip, back]
  loopless := by
    have lt := out_lt.trans (Nat.lt_succ_self n)
    cases q <;> simp [quantifiedEdges, start_lt.ne', out_lt.ne, lt.ne]
  starts_le := by
    have lt := start_lt.trans (Nat.lt_succ_self n)
    cases q <;> simp [quantifiedEdges, start_lt.ne, start_lt.ne', lt.ne']
  out_le := by
    have lt := start_lt.trans (Nat.lt_succ_self n)
    cases q <;> simp [quantifiedEdges, lt.ne]
  nodup := by
    have lt := start_lt.trans (Nat.lt_succ_self n)
    cases q <;> simp [quantifiedEdges, out_lt.ne', lt.ne]
  touches := by cases q <;> simp [quantifiedEdges]

end Fragment

namespace Graph

variable {graph wired before middle after : Graph} {fragment first second operand : Fragment}
  {S T : Set StateId} {L M : Language Char}

/-- The edges that enter a state. -/
def entering (graph : Graph) (id : StateId) : Set Edge :=
  {edge | graph.HasEdge edge ∧ edge.target = id}

/-- The exit of a fragment is blank and its other states branch; no edge is a loop, and at most two
edges enter a state, at most one the entry. -/
structure Shaped (graph : Graph) (fragment : Fragment) (states : Set StateId) : Prop where
  branching : ∀ id ∈ states, id ≠ fragment.out → (graph.state id).Branching
  blank_out : graph.state fragment.out = {}
  loopless : ∀ edge, graph.HasEdge edge → edge.source ∈ states → edge.source ≠ edge.target
  entering_le : ∀ id ∈ states, (graph.entering id).encard ≤ 2
  entering_start_le : (graph.entering fragment.start).encard ≤ 1

/-- No edge enters a number that is not a state. -/
theorem WellFormed.entering_eq_empty (wf : graph.WellFormed) {id : StateId}
    (ge : graph.size ≤ id) : graph.entering id = ∅ := by
  apply Set.eq_empty_of_forall_notMem
  rintro edge ⟨has, rfl⟩
  exact absurd (wf edge has) (not_lt.mpr ge)

/-- New edges raise the number of edges that enter a state by no more than their own number. -/
theorem encard_entering_le {edges : List Edge}
    (has_iff : ∀ edge, wired.HasEdge edge ↔ graph.HasEdge edge ∨ edge ∈ edges) (id : StateId) :
    (wired.entering id).encard ≤
      (graph.entering id).encard + (edges.filter (·.target = id)).length := by
  have split : wired.entering id =
      graph.entering id ∪ {edge | edge ∈ edges.filter (·.target = id)} := by
    ext edge
    simp [entering, has_iff, or_and_right]
  rw [split]
  refine (Set.encard_union_le _ _).trans (add_le_add le_rfl ?_)
  rw [← List.coe_toFinset, Set.encard_coe_eq_coe_finsetCard]
  exact_mod_cast List.toFinset_card_le _

/-! ## One operation -/

namespace Wires

variable {wf : graph.WellFormed} {edges : Fragment → List Edge} {rest : Language Char}
  {operands : List (Part graph)} (wires : graph.Wires wf edges rest operands)

include wires

/-- Of the states of an operand, only its entry is entered by new edges. -/
theorem filter_target_eq_nil {p : Part graph} (mem : p ∈ operands) {id : StateId}
    (inP : id ∈ p.owned) (ne : id ≠ p.start) :
    (edges ⟨graph.size, graph.size + 1⟩).filter (·.target = id) = [] := by
  have lt := wires.known p mem id inP
  rw [List.filter_eq_nil_iff]
  intro edge new same
  obtain rfl : edge.target = id := by simpa using same
  rcases wires.target_cases edge new with entry | exit | ⟨q, memQ, start⟩
  · exact lt.ne entry
  · exact (lt.trans (Nat.lt_succ_self _)).ne exit
  · obtain rfl := wires.apart.eq_of_mem mem memQ inP (start ▸ q.start_mem)
    exact ne start

/-- Narrow edges between operands of the right shape make a fragment of the right shape. -/
theorem shaped
    (narrow : Fragment.Narrow ⟨graph.size, graph.size + 1⟩ (operands.map (·.out))
      (operands.map (·.start)) (edges ⟨graph.size, graph.size + 1⟩))
    (inner : ∀ p ∈ operands, graph.Shaped p.toFragment p.owned) :
    (store.wire edges graph).2.Shaped (store.wire edges graph).1
      {s | ∃ p ∈ Part.withFresh wf rest operands, s ∈ p.owned} where
  branching := by
    rintro id ⟨p, mem, inP⟩ ne
    simp only [Part.withFresh, List.mem_cons] at mem
    rcases mem with rfl | rfl | mem
    · obtain rfl : id = graph.size := inP
      rw [state_wire_eq wires.source_lt, state_of_size_le le_rfl]
      exact narrow.leaving _ List.mem_cons_self
    · exact absurd inP ne
    · -- Of an operand only the exit gains edges, and it had none.
      by_cases out : id = p.out
      · rw [state_wire_eq wires.source_lt, out, (inner p mem).blank_out]
        exact narrow.leaving _ (List.mem_cons_of_mem _ (List.mem_map_of_mem mem))
      · rw [wires.state_eq (wires.known p mem id inP).ne]
        · exact (inner p mem).branching id inP out
        · rintro q memQ rfl
          exact out (by rw [wires.apart.eq_of_mem mem memQ inP q.out_mem])
  blank_out := by
    rw [wire_store_fst, wires.state_eq (Nat.succ_ne_self _)]
    · exact state_of_size_le (Nat.le_succ _)
    · exact fun p mem => ((wires.known p mem _ p.out_mem).trans (Nat.lt_succ_self _)).ne'
  loopless := by
    rintro edge has ⟨p, mem, inP⟩
    rcases (wires.hasEdge_iff edge).mp has with old | new
    · have lt := source_lt_of_hasEdge old
      simp only [Part.withFresh, List.mem_cons] at mem
      rcases mem with rfl | rfl | mem
      · exact absurd inP lt.ne
      · exact absurd inP (lt.trans (Nat.lt_succ_self _)).ne
      · exact (inner p mem).loopless edge old inP
    · exact narrow.loopless edge new
  entering_le := by
    rintro id ⟨p, mem, inP⟩
    refine (encard_entering_le wires.hasEdge_iff id).trans ?_
    simp only [Part.withFresh, List.mem_cons] at mem
    rcases mem with rfl | rfl | mem
    · obtain rfl : id = graph.size := inP
      rw [wf.entering_eq_empty le_rfl, Set.encard_empty, zero_add]
      exact_mod_cast (narrow.starts_le _ List.mem_cons_self).trans one_le_two
    · obtain rfl : id = graph.size + 1 := inP
      rw [wf.entering_eq_empty (Nat.le_succ _), Set.encard_empty, zero_add]
      exact_mod_cast narrow.out_le
    · -- New edges enter an operand at its entry alone, which has room for one more.
      by_cases start : id = p.start
      · rw [start, ← one_add_one_eq_two]
        refine add_le_add (inner p mem).entering_start_le ?_
        exact_mod_cast narrow.starts_le _ (List.mem_cons_of_mem _ (List.mem_map_of_mem mem))
      · rw [wires.filter_target_eq_nil mem inP start]
        simpa using (inner p mem).entering_le id inP
  entering_start_le := by
    refine (encard_entering_le wires.hasEdge_iff _).trans ?_
    rw [wire_store_fst, wf.entering_eq_empty le_rfl, Set.encard_empty, zero_add]
    exact_mod_cast narrow.starts_le _ List.mem_cons_self

end Wires

/-! ## Operands in the graph -/

theorem Owns.narrow_alternation (left : graph.Owns first S) (right : graph.Owns second T)
    (disjoint : Disjoint S T) :
    Fragment.Narrow ⟨graph.size, graph.size + 1⟩ [first.out, second.out]
      [first.start, second.start]
      (Fragment.alternationEdges first second ⟨graph.size, graph.size + 1⟩) :=
  .alternation (left.lt_size _ left.start_mem) (left.lt_size _ left.out_mem)
    (right.lt_size _ right.start_mem) (right.lt_size _ right.out_mem)
    (disjoint.ne_of_mem left.start_mem right.start_mem)
    (disjoint.ne_of_mem left.out_mem right.out_mem)

theorem Owns.narrow_quantified (owns : graph.Owns operand S) (q : Quantifier) :
    Fragment.Narrow ⟨graph.size, graph.size + 1⟩ [operand.out] [operand.start]
      (Fragment.quantifiedEdges operand ⟨graph.size, graph.size + 1⟩ q) :=
  .quantified (owns.lt_size _ owns.start_mem) (owns.lt_size _ owns.out_mem) q

theorem shaped_concat (left : graph.Owns first S) (right : graph.Owns second T)
    (disjoint : Disjoint S T) (shapedLeft : graph.Shaped first S)
    (shapedRight : graph.Shaped second T) :
    ((thompson store).concat first second graph).2.Shaped
      ((thompson store).concat first second graph).1 (S ∪ T) := by
  have ne_out : first.out ≠ second.out := disjoint.ne_of_mem left.out_mem right.out_mem
  have ne_bridge : first.out ≠ second.start := disjoint.ne_of_mem left.out_mem right.start_mem
  have ne_start : first.start ≠ second.start :=
    disjoint.ne_of_mem left.start_mem right.start_mem
  have known : (Edge.epsilon first.out second.start).source < graph.size :=
    left.lt_size _ left.out_mem
  have has_iff (edge : Edge) :
      ((thompson store).concat first second graph).2.HasEdge edge ↔
        graph.HasEdge edge ∨ edge ∈ [.epsilon first.out second.start] := by
    rw [List.mem_singleton]
    exact hasEdge_concat left edge
  have state_eq (id : StateId) (ne : id ≠ first.out) :
      ((thompson store).concat first second graph).2.state id = graph.state id :=
    (state_addEdge known id).trans (if_neg ne)
  have unentered {id : StateId} (ne : second.start ≠ id) :
      (((thompson store).concat first second graph).2.entering id).encard ≤
        (graph.entering id).encard := by
    simpa [ne] using encard_entering_le has_iff id
  refine ⟨?_, ?_, ?_, ?_, ?_⟩
  · intro id mem ne
    by_cases out : id = first.out
    · have gained : ((thompson store).concat first second graph).2.state id =
          (graph.state id).addEdge (.epsilon first.out second.start) :=
        (state_addEdge known id).trans (if_pos out)
      rw [gained, out, shapedLeft.blank_out]
      exact State.branching_epsilon _ _
    · rw [state_eq id out]
      rcases mem with mem | mem
      · exact shapedLeft.branching id mem out
      · exact shapedRight.branching id mem ne
  · exact (state_eq _ ne_out.symm).trans shapedRight.blank_out
  · intro edge has mem
    rcases (hasEdge_concat left edge).mp has with old | rfl
    · rcases mem with mem | mem
      · exact shapedLeft.loopless edge old mem
      · exact shapedRight.loopless edge old mem
    · exact ne_bridge
  · intro id mem
    by_cases start : second.start = id
    · refine (encard_entering_le has_iff id).trans ?_
      rw [← start, ← one_add_one_eq_two]
      exact add_le_add shapedRight.entering_start_le (by simp)
    · refine (unentered start).trans ?_
      rcases mem with mem | mem
      · exact shapedLeft.entering_le id mem
      · exact shapedRight.entering_le id mem
  · exact (unentered ne_start.symm).trans shapedLeft.entering_start_le

/-! ## All of a derivation -/

theorem Built.shaped_left (left : before.Built middle first L) (right : middle.Built after second M)
    (shaped : middle.Shaped first (Set.Ico before.size middle.size)) :
    after.Shaped first (Set.Ico before.size middle.size) := by
  have entering_eq (id : StateId) (mem : id ∈ Set.Ico before.size middle.size) :
      after.entering id = middle.entering id := by
    ext edge
    refine and_congr_left ?_
    rintro rfl
    exact right.hasEdge_iff (Or.inr mem.2)
  refine ⟨?_, ?_, ?_, ?_, ?_⟩
  · intro id mem ne
    rw [right.grows.state_eq id mem.2]
    exact shaped.branching id mem ne
  · rw [right.grows.state_eq _ left.owns.out_mem.2]
    exact shaped.blank_out
  · intro edge has mem
    exact shaped.loopless edge ((right.grows.hasEdge_iff mem.2).mp has) mem
  · intro id mem
    rw [entering_eq id mem]
    exact shaped.entering_le id mem
  · rw [entering_eq _ left.owns.start_mem]
    exact shaped.entering_start_le

theorem Constructed.shaped (made : Constructed before after fragment) :
    after.Shaped fragment (Set.Ico before.size after.size) := by
  induction made with
  | @empty graph wf =>
    have all := (wires_empty wf).shaped (.empty graph.size) (by simp)
    rwa [Wires.owned_eq (.refl graph) (by simp)] at all
  | @literal graph wf c =>
    have all := (wires_literal wf c).shaped (.literal graph.size c) (by simp)
    rwa [Wires.owned_eq (.refl graph) (by simp)] at all
  | @concat before middle after first second madeLeft madeRight ihLeft ihRight =>
    obtain ⟨L, left⟩ := madeLeft.exists_built
    obtain ⟨M, right⟩ := madeRight.exists_built
    have all := shaped_concat (left.owns_left right) right.owns Set.Ico_disjoint_Ico_same
      (left.shaped_left right ihLeft) ihRight
    rw [left.union_eq right] at all
    rwa [size_concat]
  | alternation madeLeft madeRight ihLeft ihRight =>
    obtain ⟨L, left⟩ := madeLeft.exists_built
    obtain ⟨M, right⟩ := madeRight.exists_built
    have ownsLeft := left.owns_left right
    have wires := wires_alternation right.wellFormed ownsLeft right.owns Set.Ico_disjoint_Ico_same
    have all := wires.shaped (ownsLeft.narrow_alternation right.owns Set.Ico_disjoint_Ico_same)
      (List.forall_mem_cons.mpr
        ⟨left.shaped_left right ihLeft, List.forall_mem_singleton.mpr ihRight⟩)
    rwa [Wires.owned_eq (left.grows.trans right.grows) (left.mem_owned_iff right 1)] at all
  | quantified made q ih =>
    obtain ⟨L, inner⟩ := made.exists_built
    have wires := wires_quantified inner.wellFormed inner.owns q
    have all := wires.shaped (inner.owns.narrow_quantified q) (List.forall_mem_singleton.mpr ih)
    rwa [Wires.owned_eq inner.grows (inner.mem_owned_iff_of_single _)] at all

end Graph

end RegularPattern
