import RegularPattern.Simulator.Strict
import RegularPattern.Proofs.Simulator.Acceptance

/-!
# No state number out of range

The stack, both lists and the edges of a well-formed automaton hold numbers of its states only, and
every state has a stamp. So a run that is given up at the first number out of range is never given
up, whatever runs came before.

## Main definitions

* `Simulator.Idle` — the memory between two closures.
-/

namespace RegularPattern.Simulator

variable {automaton : Automaton} {graph : Graph} {sim : Simulator}

/-! ## The stack -/

theorem drain?_nil (empty : sim.stack = []) : sim.drain? graph = some sim := by
  unfold drain?
  split
  · rfl
  · simp_all

theorem drain?_cons {id : StateId} {rest : List StateId} (stacked : sim.stack = id :: rest)
    (known : id < sim.stamps.size ∧ id < graph.size) :
    sim.drain? graph =
      if sim.onList id = false then ((sim.withStack rest).visit graph id).drain? graph
      else (sim.withStack rest).drain? graph := by
  rw [drain?]
  split
  · simp_all
  · next same =>
    rw [stacked] at same
    cases same
    rw [dif_pos known]
    rfl

theorem drain?_eq (stay : graph.EpsilonsStay) {seen : List StateId}
    (searching : Searching graph seen sim) : sim.drain? graph = some (sim.drain graph) := by
  induction sim using drain.induct graph generalizing seen with
  | case1 sim empty => rw [drain?_nil empty, drain_nil empty]
  | case2 sim id rest stacked _ fresh _ ih =>
    have known := searching.head_lt stacked
    rw [drain?_cons stacked known, if_pos (by exact fresh.2), drain_cons stacked,
      if_pos (by exact fresh)]
    exact ih (searching.visit stay stacked)
  | case3 sim id rest stacked _ listed ih =>
    have known := searching.head_lt stacked
    have old : sim.onList id ≠ false := fun fresh => listed ⟨known.1, fresh⟩
    rw [drain?_cons stacked known, if_neg old, drain_cons stacked, if_neg (by exact listed)]
    exact ih (searching.pass stacked)

/-! ## Lists -/

/-- Nothing is left on the stack, and every state has a stamp. -/
structure Idle (graph : Graph) (sim : Simulator) : Prop where
  stack_eq : sim.stack = []
  size_eq : sim.stamps.size = graph.size

theorem Idle.closure (idle : Idle graph sim) (id : StateId) :
    Idle graph (sim.closure graph id) where
  stack_eq := stack_drain graph _
  size_eq := (size_stamps_drain graph _).trans idle.size_eq

theorem Idle.closure?_eq (idle : Idle graph sim) (wellFormed : graph.WellFormed) {id : StateId}
    (lt : id < graph.size) : sim.closure? graph id = some (sim.closure graph id) := by
  rw [closure?, Simulator.closure, idle.stack_eq]
  exact drain?_eq wellFormed.epsilonsStay
    (searching_closure (Nat.le_of_eq idle.size_eq.symm) (fun _ => mem_listed_iff) lt)

/-- What never fails between two closures does not fail for one item after the other either. -/
theorem Idle.foldlM_eq_some {α : Type} {f : Simulator → α → Simulator}
    {f? : Simulator → α → Option Simulator} (idle : Idle graph sim) (items : List α)
    (step : ∀ item ∈ items, ∀ {sim}, Idle graph sim →
      f? sim item = some (f sim item) ∧ Idle graph (f sim item)) :
    items.foldlM f? sim = some (items.foldl f sim) ∧ Idle graph (items.foldl f sim) := by
  induction items generalizing sim with
  | nil => exact ⟨rfl, idle⟩
  | cons item items ih =>
    obtain ⟨first, others⟩ := List.forall_mem_cons.mp step
    obtain ⟨here, idle'⟩ := first idle
    rw [List.foldlM_cons, here]
    exact ih idle' others

theorem Idle.advance?_eq (idle : Idle graph sim) (wellFormed : graph.WellFormed) (c : Char)
    {id : StateId} (lt : id < graph.size) :
    sim.advance? graph c id = some ((graph.targets id c).foldl (Simulator.closure graph) sim) ∧
      Idle graph ((graph.targets id c).foldl (Simulator.closure graph) sim) := by
  rw [advance?, if_pos lt]
  exact idle.foldlM_eq_some (graph.targets id c) fun target edge _ idle =>
    ⟨idle.closure?_eq wellFormed (wellFormed.target_lt edge), idle.closure target⟩

theorem Settled.idle_newList (settled : Settled graph sim) : Idle graph sim.newList :=
  ⟨settled.stack_eq, (size_stamps_newList sim).trans settled.size_eq⟩

theorem Settled.step?_eq (settled : Settled graph sim) (wellFormed : graph.WellFormed)
    (live : ∀ id ∈ sim.current, id < graph.size) (c : Char) :
    sim.step? graph c = some (sim.step graph c) := by
  have listed := settled.idle_newList.foldlM_eq_some sim.current.toList
    fun id mem _ idle => idle.advance?_eq wellFormed c (live id (Array.mem_toList_iff.mp mem))
  rw [step?, listed.1, step, Array.foldl_toList]
  rfl

theorem Settled.begin?_eq (settled : Settled automaton.toGraph sim)
    (wellFormed : automaton.WellFormed) : sim.begin? automaton = some (sim.begin automaton) := by
  rw [begin?, settled.idle_newList.closure?_eq wellFormed.graph wellFormed.start_lt]
  rfl

/-! ## Runs -/

theorem Tracks.lt_size {word : List Char} (tracks : Tracks automaton word sim)
    (wellFormed : automaton.WellFormed) : ∀ id ∈ sim.current, id < automaton.size := by
  intro id mem
  have path := (tracks.mem_current_iff id).mp mem
  exact wellFormed.graph.lt_of_path path wellFormed.start_lt

theorem Tracks.consume?_eq {before : List Char} (tracks : Tracks automaton before sim)
    (wellFormed : automaton.WellFormed) (events : Array Event) (text : List Char) :
    sim.consume? automaton events text = some (sim.consume automaton events text) := by
  induction text generalizing sim before events with
  | nil =>
    have lt : automaton.out < sim.stamps.size := tracks.size_eq ▸ wellFormed.out_lt
    rw [consume?, if_pos lt, consume]
  | cons c rest ih =>
    cases live : sim.current.isEmpty with
    | true => simp [consume?, consume, live]
    | false =>
      have stepped := tracks.step?_eq wellFormed.graph (tracks.lt_size wellFormed) c
      have later := ih (tracks.step wellFormed c)
      simp [consume?, consume, live, stepped, later]

theorem Settled.run?_eq (settled : Settled automaton.toGraph sim)
    (wellFormed : automaton.WellFormed) (text : List Char) :
    sim.run? automaton text = some (sim.run automaton text) := by
  rw [run?, settled.begin?_eq wellFormed]
  exact (settled.tracks_begin wellFormed).consume?_eq wellFormed #[] text

end RegularPattern.Simulator
