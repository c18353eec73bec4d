import RegularPattern.Proofs.Automaton.Language
import RegularPattern.Proofs.Graph.Trim
import RegularPattern.Proofs.Simulator.Steps

/-!
# Where matching stops

Every state of a compiled pattern lies between entry and exit. So a state is live exactly as long
as the characters consumed so far still are the beginning of some accepted text, and a run stops at
the first place where they are not.

## Main definitions

* `Automaton.Viable` — words with which an accepted text begins.
* `Automaton.deadEnd` — where a text stops being viable.
-/

namespace RegularPattern

namespace Automaton

variable {automaton : Automaton} {word text : List Char}

/-- Some accepted text begins with the word. -/
def Viable (automaton : Automaton) (word : List Char) : Prop :=
  ∃ text : String, automaton.accepts text = true ∧ word <+: text.toList

theorem Viable.of_prefix {shorter : List Char} (viable : automaton.Viable word)
    (le : shorter <+: word) : automaton.Viable shorter := by
  obtain ⟨text, accepted, begins⟩ := viable
  exact ⟨text, accepted, le.trans begins⟩

/-- The least length at which the beginning of a text is not viable, infinite if there is none. -/
noncomputable def deadEnd (automaton : Automaton) (text : List Char) : ℕ∞ :=
  ⨅ (n : ℕ) (_ : ¬automaton.Viable (text.take n)), (n : ℕ∞)

theorem lt_deadEnd_iff (automaton : Automaton) (text : List Char) (n : ℕ) :
    (n : ℕ∞) < automaton.deadEnd text ↔ automaton.Viable (text.take n) := by
  constructor
  · intro lt
    by_contra dead
    exact not_lt.mpr (iInf₂_le n dead) lt
  · intro viable
    rw [← ENat.natCast_add_one_le_iff, deadEnd]
    refine le_iInf₂ fun m dead => ?_
    have lt : n < m := by
      by_contra ge
      exact dead (viable.of_prefix (List.take_prefix_take_left (not_lt.mp ge)))
    exact_mod_cast lt

/-- Where the exit is reached from every state, a word leads to some state exactly if it is
viable. -/
theorem viable_iff_exists_path (wellFormed : automaton.WellFormed)
    (left : ∀ id < automaton.size, automaton.Leads id automaton.out) (word : List Char) :
    automaton.Viable word ↔ ∃ id, automaton.Path automaton.start word id := by
  constructor
  · rintro ⟨text, accepted, rest, split⟩
    have path := (accepts_iff_path wellFormed text).mp accepted
    rw [← split] at path
    obtain ⟨id, first, -⟩ := Graph.path_append_iff.mp path
    exact ⟨id, first⟩
  · rintro ⟨id, path⟩
    obtain ⟨rest, onward⟩ := left id (wellFormed.graph.lt_of_path path wellFormed.start_lt)
    refine ⟨.ofList (word ++ rest), ?_, rest, by simp⟩
    rw [accepts_iff_path wellFormed, String.toList_ofList]
    exact path.trans onward

/-- The live states after some characters tell whether these are viable, for every memory that
earlier runs leave. -/
theorem isEmpty_current_iff {sim : Simulator} (settled : Simulator.Settled automaton.toGraph sim)
    (wellFormed : automaton.WellFormed)
    (left : ∀ id < automaton.size, automaton.Leads id automaton.out) (word : List Char) :
    ((sim.begin automaton).advance automaton.toGraph word).current.isEmpty = true ↔
      ¬automaton.Viable word := by
  have tracks := settled.tracks_advance wellFormed word
  rw [viable_iff_exists_path wellFormed left, Array.isEmpty_iff, Array.eq_empty_iff_forall_not_mem,
    not_exists]
  exact forall_congr' fun id => not_congr (tracks.mem_current_iff id)

end Automaton

/-- A compiled pattern has no useless states. -/
theorem Tree.trim_automaton (tree : Tree .expression) (pattern : String) (flags : Flags) :
    ∀ id < (tree.automaton pattern flags).size,
      (tree.automaton pattern flags).Leads (tree.automaton pattern flags).start id ∧
        (tree.automaton pattern flags).Leads id (tree.automaton pattern flags).out := by
  intro id lt
  have trim := (Graph.constructed_build tree (by decide : ({} : Graph).WellFormed)).trim
  have mem : id ∈ Set.Ico 0 (tree.automaton pattern flags).size := ⟨Nat.zero_le _, lt⟩
  exact ⟨trim.entered id mem, trim.left id mem⟩

/-- In a compiled pattern every state lies between entry and exit, so some text is accepted. The
live states run out exactly where the text stops being the beginning of an accepted text, and there
the run stops; earlier texts make no difference. -/
theorem compiled_stops_at_deadEnd {pattern : String} {flags : Flags} {automaton : Automaton}
    (compiled : compile pattern flags = .ok automaton) :
    (∀ id < automaton.size,
      automaton.Leads automaton.start id ∧ automaton.Leads id automaton.out) ∧
    (∃ text : String, automaton.accepts text = true) ∧
    ∀ (history : List (List Char)) (text : String),
      let sim := (automaton.simulator.runAll automaton history).2
      let stop := automaton.deadEnd text.toList
      (∀ i, ((sim.begin automaton).advance automaton.toGraph
          (text.toList.take i)).current.isEmpty = true ↔
        ¬automaton.Viable (text.toList.take i)) ∧
      1 ≤ stop ∧ Simulator.StopsAt automaton sim text.toList stop := by
  obtain ⟨tree, derives, rfl⟩ := exists_derives_of_compile compiled
  have wellFormed := tree.wellFormed_automaton pattern flags
  have trim := tree.trim_automaton pattern flags
  have left := fun id lt => (trim id lt).2
  have viable : (tree.automaton pattern flags).Viable [] :=
    (Automaton.viable_iff_exists_path wellFormed left []).mpr ⟨_, .refl _⟩
  refine ⟨trim, viable.imp fun text found => found.1, fun history text => ?_⟩
  have settled := Simulator.settled_runAll wellFormed history
  have empty := Automaton.isEmpty_current_iff settled wellFormed left
  refine ⟨fun i => empty _, ?_, Simulator.stopsAt_of_live fun n => ?_⟩
  · rw [Order.one_le_iff_pos]
    exact (Automaton.lt_deadEnd_iff _ _ 0).mpr viable
  · rw [Automaton.lt_deadEnd_iff, ← Bool.not_eq_true, empty, not_not]

theorem compiled_stops_at_deadEnd_of_star :
    ∃ automaton, compile "(ab|c)*d" .none = .ok automaton ∧
      (∃ text : String, automaton.accepts text = true) ∧
      Simulator.StopsAt automaton (automaton.simulator.runAll automaton [['c', 'x'], []]).2
        "abad".toList (automaton.deadEnd "abad".toList) := by
  obtain ⟨automaton, compiled⟩ :=
    exists_compile (by decide : Brackets.fault? "(ab|c)*d".toList = none) .none
  have stops := compiled_stops_at_deadEnd compiled
  exact ⟨automaton, compiled, stops.2.1, (stops.2.2 [['c', 'x'], []] "abad").2.2⟩

end RegularPattern
