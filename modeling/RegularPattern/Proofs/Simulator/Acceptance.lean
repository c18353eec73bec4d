import RegularPattern.Simulator.Run
import RegularPattern.Proofs.Simulator.Frontier

/-!
# What a run decides

At every moment of a run the live states are those to which the characters consumed so far lead.
This holds for any memory that earlier runs leave, and carries from one character to the next; so
a text is accepted exactly if it leads from entry to exit.

## Main definitions

* `Simulator.Consumes` — the moments of a run, between one memory and a later one.
* `Simulator.reports` — what happens on the way from one to the other.
* `Simulator.Tracks` — the live states are those to which a word leads.
-/

namespace RegularPattern.Simulator

variable {automaton : Automaton} {sim after : Simulator} {word : List Char}

/-- From one memory to a later one a run consumes a word, and before each character of it some
state is live. -/
inductive Consumes (automaton : Automaton) : Simulator → List Char → Simulator → Prop where
  | refl (sim : Simulator) : Consumes automaton sim [] sim
  | step {sim after : Simulator} {c : Char} {word : List Char}
      (live : sim.current.isEmpty = false)
      (rest : Consumes automaton (sim.step automaton.toGraph c) word after) :
      Consumes automaton sim (c :: word) after

theorem consume_cons_of_live (live : sim.current.isEmpty = false) (events : Array Event)
    (c : Char) (rest : List Char) :
    sim.consume automaton events (c :: rest) =
      (sim.step automaton.toGraph c).consume automaton
        (events.push (.stepped c (sim.step automaton.toGraph c).current.size)) rest := by
  simp [consume, live]

theorem consume_cons_of_dead (dead : sim.current.isEmpty = true) (events : Array Event)
    (c : Char) (rest : List Char) :
    sim.consume automaton events (c :: rest) = (⟨false, events.push (.exhausted c)⟩, sim) := by
  simp [consume, dead]

/-- What the steps for the characters of a word report. -/
def reports (graph : Graph) (sim : Simulator) : List Char → List Event
  | [] => []
  | c :: word =>
    .stepped c (sim.step graph c).current.size :: reports graph (sim.step graph c) word

/-- A run goes through each of its moments and reports the steps on the way. -/
theorem Consumes.consume_eq (consumes : Consumes automaton sim word after)
    (events : Array Event) (rest : List Char) :
    sim.consume automaton events (word ++ rest) =
      after.consume automaton (events ++ reports automaton.toGraph sim word) rest := by
  induction consumes generalizing events with
  | refl => simp [reports]
  | step live _ ih =>
    rw [List.cons_append, consume_cons_of_live live, ih]
    rfl

theorem Consumes.consume_append (consumes : Consumes automaton sim word after)
    (events : Array Event) (rest : List Char) :
    ∃ later, sim.consume automaton events (word ++ rest) =
      after.consume automaton later rest :=
  ⟨_, consumes.consume_eq events rest⟩

/-- A run ends after the whole text, or where no state is live. -/
theorem exists_consumes (automaton : Automaton) (sim : Simulator) (events : Array Event)
    (text : List Char) :
    ∃ consumed left, text = consumed ++ left ∧
      Consumes automaton sim consumed (sim.consume automaton events text).2 ∧
      (left = [] ∨ (sim.consume automaton events text).2.current.isEmpty = true) := by
  induction text generalizing sim events with
  | nil => exact ⟨[], [], rfl, .refl sim, .inl rfl⟩
  | cons c rest ih =>
    cases live : sim.current.isEmpty with
    | true =>
      rw [consume_cons_of_dead live]
      exact ⟨[], c :: rest, rfl, .refl sim, .inr live⟩
    | false =>
      rw [consume_cons_of_live live]
      obtain ⟨consumed, left, rfl, consumes, ends⟩ := ih (sim.step automaton.toGraph c) _
      exact ⟨c :: consumed, left, rfl, .step live consumes, ends⟩

/-! ## The invariant of a run -/

/-- The live states are those to which a word leads, and the newest stamp marks them. -/
structure Tracks (automaton : Automaton) (word : List Char) (sim : Simulator) : Prop
    extends Settled automaton.toGraph sim where
  mem_current_iff : ∀ id, id ∈ sim.current ↔ automaton.Path automaton.start word id
  onList_iff : ∀ id, sim.onList id = true ↔ id ∈ sim.current

theorem Settled.tracks_begin (settled : Settled automaton.toGraph sim)
    (wellFormed : automaton.WellFormed) : Tracks automaton [] (sim.begin automaton) := by
  have inRange : ∀ root ∈ [automaton.start], root < automaton.toGraph.size := by
    simpa using wellFormed.start_lt
  have frontier := settled.frontier wellFormed.graph inRange
  refine ⟨frontier.toSettled, fun id => ?_, frontier.onList_iff⟩
  rw [Graph.path_nil_iff]
  exact frontier.mem_current_iff.trans (by simp)

theorem Tracks.step (tracks : Tracks automaton word sim) (wellFormed : automaton.WellFormed)
    (c : Char) : Tracks automaton (word ++ [c]) (sim.step automaton.toGraph c) := by
  have frontier := tracks.toSettled.frontier_step wellFormed.graph c
  refine ⟨frontier.toSettled, fun id => ?_, frontier.onList_iff⟩
  rw [Graph.path_concat_iff, frontier.mem_current_iff]
  constructor
  · rintro ⟨root, mem, reaches⟩
    obtain ⟨source, live, edge⟩ := List.mem_flatMap.mp mem
    exact ⟨source, root, (tracks.mem_current_iff source).mp (by simpa using live), edge, reaches⟩
  · rintro ⟨source, root, path, edge, reaches⟩
    have live := (tracks.mem_current_iff source).mpr path
    exact ⟨root, List.mem_flatMap.mpr ⟨source, by simpa using live, edge⟩, reaches⟩

theorem Consumes.tracks {before : List Char} (consumes : Consumes automaton sim word after)
    (wellFormed : automaton.WellFormed) (tracks : Tracks automaton before sim) :
    Tracks automaton (before ++ word) after := by
  induction consumes generalizing before with
  | refl => simpa using tracks
  | @step sim after c word _ _ ih =>
    have later := ih (tracks.step wellFormed c)
    rwa [List.append_assoc, List.singleton_append] at later

/-- The rest of a text is accepted exactly if the whole leads from entry to exit. -/
theorem Tracks.accepted_iff (tracks : Tracks automaton word sim)
    (wellFormed : automaton.WellFormed) (events : Array Event) (rest : List Char) :
    (sim.consume automaton events rest).1.accepted = true ↔
      automaton.Path automaton.start (word ++ rest) automaton.out := by
  induction rest generalizing sim word events with
  | nil =>
    rw [List.append_nil, ← tracks.mem_current_iff, ← tracks.onList_iff]
    rfl
  | cons c rest ih =>
    cases live : sim.current.isEmpty with
    | true =>
      -- No state is live, so no path spells even the part that was consumed.
      rw [consume_cons_of_dead live]
      refine ⟨nofun, fun path => ?_⟩
      obtain ⟨middle, first, -⟩ := Graph.path_append_iff.mp path
      have mem := (tracks.mem_current_iff middle).mpr first
      rw [Array.isEmpty_iff] at live
      simp [live] at mem
    | false =>
      rw [consume_cons_of_live live, ih (tracks.step wellFormed c)]
      simp

/-! ## Runs in turn -/

theorem Settled.run (settled : Settled automaton.toGraph sim) (wellFormed : automaton.WellFormed)
    (text : List Char) : Settled automaton.toGraph (sim.run automaton text).2 := by
  obtain ⟨consumed, left, -, consumes, -⟩ :=
    exists_consumes automaton (sim.begin automaton) #[] text
  exact (consumes.tracks wellFormed (settled.tracks_begin wellFormed)).toSettled

theorem Settled.runAll (settled : Settled automaton.toGraph sim)
    (wellFormed : automaton.WellFormed) (texts : List (List Char)) :
    Settled automaton.toGraph (sim.runAll automaton texts).2 := by
  induction texts generalizing sim with
  | nil => exact settled
  | cons text texts ih => exact ih (settled.run wellFormed text)

theorem settled_runAll (wellFormed : automaton.WellFormed) (texts : List (List Char)) :
    Settled automaton.toGraph (automaton.simulator.runAll automaton texts).2 :=
  (settled_initial automaton.toGraph).runAll wellFormed texts

theorem Settled.isMatch_iff (settled : Settled automaton.toGraph sim)
    (wellFormed : automaton.WellFormed) (text : String) :
    (sim.isMatch automaton text).1 = true ↔
      automaton.Path automaton.start text.toList automaton.out :=
  (settled.tracks_begin wellFormed).accepted_iff wellFormed #[] text.toList

/-- What a simulator has matched before makes no difference to its answer. -/
theorem Settled.isMatch_eq_accepts (settled : Settled automaton.toGraph sim)
    (wellFormed : automaton.WellFormed) (text : String) :
    (sim.isMatch automaton text).1 = automaton.accepts text := by
  have fresh : Settled automaton.toGraph automaton.simulator := settled_initial automaton.toGraph
  rw [Bool.eq_iff_iff, settled.isMatch_iff wellFormed]
  exact (fresh.isMatch_iff wellFormed text).symm

theorem Settled.map_accepted_runAll (settled : Settled automaton.toGraph sim)
    (wellFormed : automaton.WellFormed) (texts : List String) :
    (sim.runAll automaton (texts.map String.toList)).1.map Verdict.accepted =
      texts.map automaton.accepts := by
  induction texts generalizing sim with
  | nil => rfl
  | cons text texts ih =>
    rw [List.map_cons, Simulator.runAll, List.map_cons, List.map_cons,
      ih (settled.run wellFormed text.toList), ← settled.isMatch_eq_accepts wellFormed text]
    rfl

/-- Whatever texts a simulator has matched before, its live states after each consumed part of a
text are those to which that part leads, and the text is accepted exactly if it leads from entry
to exit. The run goes on until the whole text is consumed or no state is live. -/
theorem isMatch_decides_paths (wellFormed : automaton.WellFormed)
    (history : List (List Char)) (text : String) :
    let sim := (automaton.simulator.runAll automaton history).2
    (∀ consumed left after, text.toList = consumed ++ left →
      Consumes automaton (sim.begin automaton) consumed after →
      (∃ events, sim.run automaton text.toList = after.consume automaton events left) ∧
        ∀ id, id ∈ after.current ↔ automaton.Path automaton.start consumed id) ∧
    (∃ consumed left, text.toList = consumed ++ left ∧
      Consumes automaton (sim.begin automaton) consumed (sim.isMatch automaton text).2 ∧
      (left = [] ∨ (sim.isMatch automaton text).2.current.isEmpty = true)) ∧
    ((sim.isMatch automaton text).1 = true ↔
      automaton.Path automaton.start text.toList automaton.out) ∧
    automaton.accepts text = (sim.isMatch automaton text).1 := by
  intro sim
  have settled : Settled automaton.toGraph sim := settled_runAll wellFormed history
  have fresh : Settled automaton.toGraph automaton.simulator := settled_initial automaton.toGraph
  refine ⟨?_, ?_, settled.isMatch_iff wellFormed text, ?_⟩
  · intro consumed left after split consumes
    refine ⟨?_, (consumes.tracks wellFormed (settled.tracks_begin wellFormed)).mem_current_iff⟩
    rw [split]
    exact consumes.consume_append #[] left
  · exact exists_consumes automaton (sim.begin automaton) #[] text.toList
  · rw [Bool.eq_iff_iff, settled.isMatch_iff wellFormed]
    exact fresh.isMatch_iff wellFormed text

/-- An automaton with a cycle of epsilon edges, through which every word of letters `a` passes. -/
def cyclic : Automaton where
  toGraph := Graph.store.addEdges
    [.epsilon 0 1, .epsilon 1 0, .epsilon 1 2, .consuming 1 'a' 1]
    ({} : Graph).addState.addState.addState
  start := 0
  out := 2
  pattern := ""
  flags := .none

theorem cyclic_decides_paths :
    cyclic.WellFormed ∧
      let sim := (cyclic.simulator.runAll cyclic [['b', 'a'], ['a'], []]).2
      ((sim.isMatch cyclic "aa").1 = true ↔ cyclic.Path 0 "aa".toList 2) :=
  ⟨by decide, (isMatch_decides_paths (by decide) [['b', 'a'], ['a'], []] "aa").2.2.1⟩

end RegularPattern.Simulator
