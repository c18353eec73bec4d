import RegularPattern.Proofs.Graph.Construction

/-!
# Fragments without useless states

Every state that the construction makes is reached from the entry of its fragment and reaches the
exit. Each operation keeps this: from its entry it leads into every operand, and from the exit of
every operand it leads on to its own. The body of a star gets there through the entry alone.

## Main definitions

* `Graph.Leads` — some path leads from one state to another.
* `Graph.Trim` — states that all lie between the entry and the exit of a fragment.
-/

namespace RegularPattern.Graph

variable {graph other before middle after : Graph} {fragment first second operand : Fragment}
  {s t u : StateId} {S T : Set StateId} {L M : Language Char}

/-- Some path leads from one state to another, whatever it reads. -/
def Leads (graph : Graph) (s t : StateId) : Prop :=
  ∃ word, graph.Path s word t

theorem Leads.refl (graph : Graph) (s : StateId) : graph.Leads s s := ⟨[], .refl s⟩

theorem Leads.trans (early : graph.Leads s t) (late : graph.Leads t u) : graph.Leads s u := by
  obtain ⟨first, before⟩ := early
  obtain ⟨second, after⟩ := late
  exact ⟨first ++ second, before.trans after⟩

theorem Leads.of_hasEdge {edge : Edge} (has : graph.HasEdge edge) :
    graph.Leads edge.source edge.target := by
  cases edge with
  | epsilon source target => exact ⟨[], .epsilon has (.refl target)⟩
  | consuming source c target => exact ⟨[c], .consuming has (.refl target)⟩

theorem Leads.mono (leads : graph.Leads s t)
    (kept : ∀ edge, graph.HasEdge edge → other.HasEdge edge) : other.Leads s t := by
  obtain ⟨word, path⟩ := leads
  exact ⟨word, between_mono kept s t path⟩

/-- Every one of the states is reached from the entry and reaches the exit. -/
structure Trim (graph : Graph) (fragment : Fragment) (states : Set StateId) : Prop where
  entered : ∀ s ∈ states, graph.Leads fragment.start s
  left : ∀ s ∈ states, graph.Leads s fragment.out

theorem Trim.mono (trim : graph.Trim fragment S)
    (kept : ∀ edge, graph.HasEdge edge → other.HasEdge edge) : other.Trim fragment S where
  entered s mem := (trim.entered s mem).mono kept
  left s mem := (trim.left s mem).mono kept

theorem Grows.hasEdge (grown : before.Grows after) {edge : Edge} (has : before.HasEdge edge) :
    after.HasEdge edge :=
  (grown.hasEdge_iff (source_lt_of_hasEdge has)).mpr has

/-! ## One operation -/

namespace Wires

variable {wf : graph.WellFormed} {edges : Fragment → List Edge} {rest : Language Char}
  {operands : List (Part graph)} (wires : graph.Wires wf edges rest operands)

include wires

theorem hasEdge_of_hasEdge (edge : Edge) (has : graph.HasEdge edge) :
    (store.wire edges graph).2.HasEdge edge :=
  (wires.hasEdge_iff edge).mpr (Or.inl has)

theorem leads_of_mem (edge : Edge) (mem : edge ∈ edges ⟨graph.size, graph.size + 1⟩) :
    (store.wire edges graph).2.Leads edge.source edge.target :=
  .of_hasEdge ((wires.hasEdge_iff edge).mpr (Or.inr mem))

/-- Operands without useless states, between a new entry and a new exit, make a fragment without
useless states. -/
theorem trim
    (direct : (store.wire edges graph).2.Leads graph.size (graph.size + 1))
    (inner : ∀ p ∈ operands, graph.Trim p.toFragment p.owned)
    (enter : ∀ p ∈ operands, (store.wire edges graph).2.Leads graph.size p.start)
    (leave : ∀ p ∈ operands, (store.wire edges graph).2.Leads p.out (graph.size + 1)) :
    (store.wire edges graph).2.Trim (store.wire edges graph).1
      {s | ∃ p ∈ Part.withFresh wf rest operands, s ∈ p.owned} where
  entered := by
    rintro s ⟨p, mem, inP⟩
    simp only [Part.withFresh, List.mem_cons] at mem
    rcases mem with rfl | rfl | mem
    · obtain rfl : s = graph.size := inP
      exact .refl _ _
    · obtain rfl : s = graph.size + 1 := inP
      exact direct
    · exact (enter p mem).trans (((inner p mem).entered s inP).mono wires.hasEdge_of_hasEdge)
  left := by
    rintro s ⟨p, mem, inP⟩
    simp only [Part.withFresh, List.mem_cons] at mem
    rcases mem with rfl | rfl | mem
    · obtain rfl : s = graph.size := inP
      exact direct
    · obtain rfl : s = graph.size + 1 := inP
      exact .refl _ _
    · exact (((inner p mem).left s inP).mono wires.hasEdge_of_hasEdge).trans (leave p mem)

end Wires

theorem trim_concat (left : graph.Owns first S) (right : graph.Owns second T)
    (trimLeft : graph.Trim first S) (trimRight : graph.Trim second T) :
    ((thompson store).concat first second graph).2.Trim
      ((thompson store).concat first second graph).1 (S ∪ T) := by
  have kept (edge : Edge) (has : graph.HasEdge edge) :
      ((thompson store).concat first second graph).2.HasEdge edge :=
    (hasEdge_concat left edge).mpr (Or.inl has)
  have bridge : ((thompson store).concat first second graph).2.Leads first.out second.start :=
    .of_hasEdge ((hasEdge_concat left (.epsilon first.out second.start)).mpr (Or.inr rfl))
  have early := trimLeft.mono kept
  have late := trimRight.mono kept
  refine ⟨?_, ?_⟩
  · rintro s (mem | mem)
    · exact early.entered s mem
    · exact ((early.entered _ left.out_mem).trans bridge).trans (late.entered s mem)
  · rintro s (mem | mem)
    · exact ((early.left s mem).trans bridge).trans (late.left _ right.start_mem)
    · exact late.left s mem

theorem trim_alternation (wf : graph.WellFormed) (left : graph.Owns first S)
    (right : graph.Owns second T) (disjoint : Disjoint S T)
    (trimLeft : graph.Trim first S) (trimRight : graph.Trim second T) :
    ((thompson store).alternation first second graph).2.Trim
      ((thompson store).alternation first second graph).1
      {s | ∃ p ∈ Part.withFresh wf (graph.language first + graph.language second)
        [Part.ofOwns left 1, Part.ofOwns right 1], s ∈ p.owned} := by
  have wires := wires_alternation wf left right disjoint
  have enterLeft := wires.leads_of_mem (.epsilon graph.size first.start)
    (by simp [Fragment.alternationEdges])
  have enterRight := wires.leads_of_mem (.epsilon graph.size second.start)
    (by simp [Fragment.alternationEdges])
  have leaveLeft := wires.leads_of_mem (.epsilon first.out (graph.size + 1))
    (by simp [Fragment.alternationEdges])
  have leaveRight := wires.leads_of_mem (.epsilon second.out (graph.size + 1))
    (by simp [Fragment.alternationEdges])
  have across := ((trimLeft.left _ left.start_mem).mono wires.hasEdge_of_hasEdge)
  exact wires.trim ((enterLeft.trans across).trans leaveLeft)
    (List.forall_mem_cons.mpr ⟨trimLeft, List.forall_mem_singleton.mpr trimRight⟩)
    (List.forall_mem_cons.mpr ⟨enterLeft, List.forall_mem_singleton.mpr enterRight⟩)
    (List.forall_mem_cons.mpr ⟨leaveLeft, List.forall_mem_singleton.mpr leaveRight⟩)

theorem trim_quantified (wf : graph.WellFormed) (owns : graph.Owns operand S)
    (trim : graph.Trim operand S) (q : Quantifier) :
    ((thompson store).quantified q operand graph).2.Trim
      ((thompson store).quantified q operand graph).1
      {s | ∃ p ∈ Part.withFresh wf (q.language (graph.language operand))
        [Part.ofOwns owns (behind (graph.language operand) q)], s ∈ p.owned} := by
  have wires := wires_quantified wf owns q
  have enter := wires.leads_of_mem (.epsilon graph.size operand.start)
    (by cases q <;> simp [Fragment.quantifiedEdges])
  have across := ((trim.left _ owns.start_mem).mono wires.hasEdge_of_hasEdge)
  have direct_leave :
      (store.wire (fun new => Fragment.quantifiedEdges operand new q) graph).2.Leads
        graph.size (graph.size + 1) ∧
      (store.wire (fun new => Fragment.quantifiedEdges operand new q) graph).2.Leads
        operand.out (graph.size + 1) := by
    cases q with
    | zeroOrMore =>
      have skip := wires.leads_of_mem (.epsilon graph.size (graph.size + 1))
        (by simp [Fragment.quantifiedEdges])
      have back := wires.leads_of_mem (.epsilon operand.out graph.size)
        (by simp [Fragment.quantifiedEdges])
      -- The body's exit leads back to the entry, the only way on from there.
      exact ⟨skip, back.trans skip⟩
    | oneOrMore =>
      have leave := wires.leads_of_mem (.epsilon operand.out (graph.size + 1))
        (by simp [Fragment.quantifiedEdges])
      exact ⟨(enter.trans across).trans leave, leave⟩
    | zeroOrOne =>
      have skip := wires.leads_of_mem (.epsilon graph.size (graph.size + 1))
        (by simp [Fragment.quantifiedEdges])
      have leave := wires.leads_of_mem (.epsilon operand.out (graph.size + 1))
        (by simp [Fragment.quantifiedEdges])
      exact ⟨skip, leave⟩
  exact wires.trim direct_leave.1 (List.forall_mem_singleton.mpr trim)
    (List.forall_mem_singleton.mpr enter) (List.forall_mem_singleton.mpr direct_leave.2)

/-! ## All of a derivation -/

theorem Constructed.trim (made : Constructed before after fragment) :
    after.Trim fragment (Set.Ico before.size after.size) := by
  induction made with
  | @empty graph wf =>
    have wires := wires_empty wf
    have edge := wires.leads_of_mem (.epsilon graph.size (graph.size + 1))
      List.mem_cons_self
    have all := wires.trim edge (by simp) (by simp) (by simp)
    rwa [Wires.owned_eq (.refl graph) (by simp)] at all
  | @literal graph wf c =>
    have wires := wires_literal wf c
    have edge := wires.leads_of_mem (.consuming graph.size c (graph.size + 1))
      List.mem_cons_self
    have all := wires.trim edge (by simp) (by simp) (by simp)
    rwa [Wires.owned_eq (.refl graph) (by simp)] at all
  | @concat before middle after first second madeLeft madeRight ihLeft ihRight =>
    obtain ⟨L, left⟩ := madeLeft.exists_built
    obtain ⟨M, right⟩ := madeRight.exists_built
    have all := trim_concat (left.owns_left right) right.owns
      (ihLeft.mono fun _ => right.grows.hasEdge) ihRight
    rw [left.union_eq right] at all
    rwa [size_concat]
  | alternation madeLeft madeRight ihLeft ihRight =>
    obtain ⟨L, left⟩ := madeLeft.exists_built
    obtain ⟨M, right⟩ := madeRight.exists_built
    have all := trim_alternation right.wellFormed (left.owns_left right) right.owns
      Set.Ico_disjoint_Ico_same (ihLeft.mono fun _ => right.grows.hasEdge) ihRight
    rwa [Wires.owned_eq (left.grows.trans right.grows) (left.mem_owned_iff right 1)] at all
  | quantified made q ih =>
    obtain ⟨L, inner⟩ := made.exists_built
    have all := trim_quantified inner.wellFormed inner.owns ih q
    rwa [Wires.owned_eq inner.grows (inner.mem_owned_iff_of_single _)] at all

end RegularPattern.Graph
