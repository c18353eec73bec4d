import Mathlib.Data.ENat.Lattice
import RegularPattern.Proofs.Simulator.Acceptance

/-!
# The steps of a run

A run takes one step for each character until the text ends or no state is live. What it reports
and the memory that it leaves are those of the single steps, and the place where it stops is the
first one at which no state is live. It makes one list more than it takes steps, and the stamps
count the lists.

## Main definitions

* `Verdict.steps` — how many steps a run took.
* `Simulator.advance` — one step for each character of a word.
* `Simulator.listCount` — how many lists several runs have made.
* `Simulator.StopsAt` — a run that stops before the character at a given index.
-/

namespace RegularPattern

/-- Whether the event is that of a step. -/
def Event.isStep : Event → Bool
  | stepped _ _ => true
  | exhausted _ => false

/-- How many steps a run took. -/
def Verdict.steps (verdict : Verdict) : Nat :=
  verdict.events.countP Event.isStep

namespace Simulator

variable {automaton : Automaton} {graph : Graph} {sim after : Simulator} {word : List Char}

/-- The memory after one step for each character of a word, whether states are live or not. -/
def advance (graph : Graph) (sim : Simulator) (word : List Char) : Simulator :=
  word.foldl (step graph) sim

theorem Consumes.eq_advance (consumes : Consumes automaton sim word after) :
    after = sim.advance automaton.toGraph word := by
  induction consumes with
  | refl => rfl
  | step _ _ ih => exact ih

theorem Consumes.live (consumes : Consumes automaton sim word after) {n : Nat}
    (lt : n < word.length) :
    (sim.advance automaton.toGraph (word.take n)).current.isEmpty = false := by
  induction consumes generalizing n with
  | refl => cases lt
  | step live _ ih =>
    cases n with
    | zero => exact live
    | succ n => exact ih (Nat.lt_of_succ_lt_succ lt)

theorem Settled.tracks_advance (settled : Settled automaton.toGraph sim)
    (wellFormed : automaton.WellFormed) (word : List Char) :
    Tracks automaton word ((sim.begin automaton).advance automaton.toGraph word) := by
  induction word using List.reverseRecOn with
  | nil => exact settled.tracks_begin wellFormed
  | append_singleton word c ih =>
    have later := ih.step wellFormed c
    rwa [advance, List.foldl_append]

/-! ## Reports -/

theorem getElem?_reports (graph : Graph) (sim : Simulator) (word : List Char) (i : Nat) :
    (reports graph sim word)[i]? =
      word[i]?.map fun c =>
        .stepped c (sim.advance graph (word.take (i + 1))).current.size := by
  induction word generalizing sim i with
  | nil => rfl
  | cons c word ih =>
    cases i with
    | zero => rfl
    | succ i => simpa [reports, advance] using ih (sim.step graph c) i

@[simp] theorem length_reports (graph : Graph) (sim : Simulator) (word : List Char) :
    (reports graph sim word).length = word.length := by
  induction word generalizing sim with
  | nil => rfl
  | cons c word ih => simp [reports, ih]

theorem countP_isStep_reports (graph : Graph) (sim : Simulator) (word : List Char) :
    (reports graph sim word).countP Event.isStep = word.length := by
  induction word generalizing sim with
  | nil => rfl
  | cons c word ih => rw [reports, List.countP_cons_of_pos rfl, ih, List.length_cons]

/-- What a run reports at the character before which it stops. -/
def lastReport : List Char → List Event
  | [] => []
  | c :: _ => [.exhausted c]

theorem countP_isStep_lastReport (left : List Char) :
    (lastReport left).countP Event.isStep = 0 := by
  cases left <;> rfl

/-- A run on `consumed ++ left` that consumes the first part: it goes on to the end of the text or
to a place where no state is live, and reports each step and the place. -/
structure Ran (automaton : Automaton) (sim : Simulator) (text consumed left : List Char) :
    Prop where
  split : text = consumed ++ left
  consumes : Consumes automaton (sim.begin automaton) consumed (sim.run automaton text).2
  ends : left = [] ∨ (sim.run automaton text).2.current.isEmpty = true
  events_eq : (sim.run automaton text).1.events.toList =
    reports automaton.toGraph (sim.begin automaton) consumed ++ lastReport left

theorem exists_ran (automaton : Automaton) (sim : Simulator) (text : List Char) :
    ∃ consumed left, Ran automaton sim text consumed left := by
  obtain ⟨consumed, left, split, consumes, ends⟩ :=
    exists_consumes automaton (sim.begin automaton) #[] text
  refine ⟨consumed, left, split, consumes, ends, ?_⟩
  have run_eq := consumes.consume_eq #[] left
  rw [← split] at run_eq
  rw [run, run_eq]
  cases left with
  | nil => simp [consume, lastReport]
  | cons c left =>
    rw [consume_cons_of_dead (ends.resolve_left (List.cons_ne_nil c left))]
    simp [lastReport]

namespace Ran

variable {text consumed left : List Char} (ran : Ran automaton sim text consumed left)

include ran

theorem steps_eq : (sim.run automaton text).1.steps = consumed.length := by
  rw [Verdict.steps, ← Array.countP_toList, ran.events_eq, List.countP_append,
    countP_isStep_reports, countP_isStep_lastReport, Nat.add_zero]

theorem memory_eq :
    (sim.run automaton text).2 = (sim.begin automaton).advance automaton.toGraph consumed :=
  ran.consumes.eq_advance

theorem take_eq {n : Nat} (le : n ≤ consumed.length) : text.take n = consumed.take n := by
  rw [ran.split, List.take_append_of_le_length le]

theorem getElem?_events (i : Nat) : (sim.run automaton text).1.events[i]? =
    (reports automaton.toGraph (sim.begin automaton) consumed ++ lastReport left)[i]? := by
  rw [← ran.events_eq, Array.getElem?_toList]

theorem getElem?_events_of_lt {i : Nat} (lt : i < consumed.length) :
    ∃ c, text[i]? = some c ∧ (sim.run automaton text).1.events[i]? = some (.stepped c
      ((sim.begin automaton).advance automaton.toGraph (text.take (i + 1))).current.size) := by
  have here : consumed[i]? = some consumed[i] := List.getElem?_eq_getElem lt
  refine ⟨consumed[i], ?_, ?_⟩
  · rw [ran.split, List.getElem?_append_left lt, here]
  · rw [ran.getElem?_events, List.getElem?_append_left (by simpa using lt), getElem?_reports, here,
      ran.take_eq lt]
    rfl

theorem getElem?_events_eq_exhausted_iff (i : Nat) (c : Char) :
    (sim.run automaton text).1.events[i]? = some (.exhausted c) ↔
      i = consumed.length ∧ left.head? = some c := by
  rw [ran.getElem?_events]
  rcases Nat.lt_trichotomy i consumed.length with lt | rfl | gt
  · rw [List.getElem?_append_left (by simpa using lt), getElem?_reports,
      List.getElem?_eq_getElem lt]
    simp [lt.ne]
  · rw [List.getElem?_append_right (by simp)]
    cases left <;> simp [lastReport]
  · have beyond : (reports automaton.toGraph (sim.begin automaton) consumed ++
        lastReport left)[i]? = none := by
      cases left <;> simp [lastReport] <;> omega
    simp [beyond, gt.ne']

end Ran

/-! ## Counting lists -/

/-- Until the largest stamp has been given out, stamps count the lists. -/
theorem iterate_nextStamp {stamp count : Nat} (le : stamp + count ≤ maxStamp) :
    nextStamp^[count] stamp = stamp + count := by
  induction count with
  | zero => rfl
  | succ count ih =>
    have lt : stamp + count < maxStamp := Nat.lt_of_succ_le le
    rw [Function.iterate_succ_apply', ih (Nat.le_of_lt lt), nextStamp, if_pos lt, Nat.add_assoc]

@[simp] theorem stamp_begin (automaton : Automaton) (sim : Simulator) :
    (sim.begin automaton).stamp = nextStamp sim.stamp :=
  stamp_foldl_closure automaton.toGraph [automaton.start] sim.newList

theorem stamp_advance (graph : Graph) (sim : Simulator) (word : List Char) :
    (sim.advance graph word).stamp = nextStamp^[word.length] sim.stamp := by
  induction word generalizing sim with
  | nil => rfl
  | cons c word ih =>
    have later := ih (sim.step graph c)
    rwa [stamp_step] at later

/-- A run makes one list before its first step and one list for each step. -/
theorem stamp_run (automaton : Automaton) (sim : Simulator) (text : List Char) :
    (sim.run automaton text).2.stamp =
      nextStamp^[1 + (sim.run automaton text).1.steps] sim.stamp := by
  obtain ⟨consumed, left, ran⟩ := exists_ran automaton sim text
  rw [ran.memory_eq, ran.steps_eq, stamp_advance, stamp_begin, Nat.add_comm,
    Function.iterate_succ_apply]

theorem steps_le_length (automaton : Automaton) (sim : Simulator) (text : List Char) :
    (sim.run automaton text).1.steps ≤ text.length := by
  obtain ⟨consumed, left, ran⟩ := exists_ran automaton sim text
  rw [ran.steps_eq, ran.split, List.length_append]
  exact Nat.le_add_right _ _

/-- How many lists runs have made: one before the first step of each run and one for each step. -/
def listCount (verdicts : List Verdict) : Nat :=
  (verdicts.map fun verdict => 1 + verdict.steps).sum

theorem stamp_runAll (automaton : Automaton) (sim : Simulator) (texts : List (List Char)) :
    (sim.runAll automaton texts).2.stamp =
      nextStamp^[listCount (sim.runAll automaton texts).1] sim.stamp := by
  induction texts generalizing sim with
  | nil => rfl
  | cons text texts ih =>
    simp only [runAll, listCount, List.map_cons, List.sum_cons]
    rw [Nat.add_comm, Function.iterate_add_apply, ← stamp_run]
    exact ih _

/-- As long as there are stamps for all lists, the stamp is the number of lists. -/
theorem stamp_runAll_of_lt {texts : List (List Char)}
    (few : listCount (automaton.simulator.runAll automaton texts).1 < 2 ^ 64) :
    (automaton.simulator.runAll automaton texts).2.stamp =
      listCount (automaton.simulator.runAll automaton texts).1 := by
  have none : automaton.simulator.stamp = 0 := rfl
  rw [stamp_runAll, none, iterate_nextStamp, Nat.zero_add]
  rw [Nat.zero_add]
  exact Nat.le_sub_one_of_lt few

theorem listCount_runAll_le (automaton : Automaton) (sim : Simulator) (texts : List (List Char)) :
    listCount (sim.runAll automaton texts).1 ≤ (texts.map fun text => 1 + text.length).sum := by
  induction texts generalizing sim with
  | nil => exact Nat.le_refl 0
  | cons text texts ih =>
    simp only [runAll, listCount, List.map_cons, List.sum_cons]
    exact Nat.add_le_add (Nat.add_le_add_left (steps_le_length automaton sim text) 1) (ih _)

/-! ## Where a run stops -/

/-- The run on a text takes a step for each character before the index `stop`, and if the text goes
on there it stops before that character. States are live after each step but the last before
`stop`. -/
structure StopsAt (automaton : Automaton) (sim : Simulator) (text : List Char) (stop : ℕ∞) :
    Prop where
  steps_eq : ((sim.run automaton text).1.steps : ℕ∞) = min (text.length : ℕ∞) stop
  stepped : ∀ i < (sim.run automaton text).1.steps, ∃ c live, text[i]? = some c ∧
    (sim.run automaton text).1.events[i]? = some (.stepped c live) ∧
    (0 < live ↔ ((i + 1 : ℕ) : ℕ∞) < stop)
  exhausted : ∀ (i : ℕ) (c : Char), (sim.run automaton text).1.events[i]? = some (.exhausted c) ↔
    (i : ℕ∞) = stop ∧ text[i]? = some c
  memory : (sim.run automaton text).2 =
    (sim.begin automaton).advance automaton.toGraph
      (text.take (sim.run automaton text).1.steps)

section

variable {text : List Char} {stop : ℕ∞}

/-- A run stops at the first index at which no state is live. -/
theorem Ran.stop_cases {consumed left : List Char} (ran : Ran automaton sim text consumed left)
    (live : ∀ n, ((sim.begin automaton).advance automaton.toGraph
      (text.take n)).current.isEmpty = false ↔ (n : ℕ∞) < stop) :
    (consumed.length : ℕ∞) ≤ stop ∧ (left ≠ [] → stop = consumed.length) := by
  have le : (consumed.length : ℕ∞) ≤ stop := by
    -- A step was taken at every index below, so states were live there.
    by_contra gt
    obtain ⟨k, rfl⟩ := ENat.ne_top_iff_exists.mp (ne_top_of_lt (not_le.mp gt))
    have lt : k < consumed.length := by exact_mod_cast not_le.mp gt
    refine lt_irrefl (k : ℕ∞) ((live k).mp ?_)
    rw [ran.take_eq lt.le]
    exact ran.consumes.live lt
  refine ⟨le, fun ne => le_antisymm ?_ le⟩
  rw [← not_lt, ← live, ran.take_eq le_rfl, List.take_length, ← ran.memory_eq]
  simpa using ran.ends.resolve_left ne

theorem stopsAt_of_live
    (live : ∀ n, ((sim.begin automaton).advance automaton.toGraph
      (text.take n)).current.isEmpty = false ↔ (n : ℕ∞) < stop) :
    StopsAt automaton sim text stop := by
  obtain ⟨consumed, left, ran⟩ := exists_ran automaton sim text
  obtain ⟨le, stops⟩ := ran.stop_cases live
  have length_eq : text.length = consumed.length + left.length := by
    rw [ran.split, List.length_append]
  refine ⟨?_, ?_, ?_, ?_⟩
  · rw [ran.steps_eq, length_eq]
    cases left with
    | nil => simpa using le
    | cons c left => simp [stops (List.cons_ne_nil c left)]
  · intro i lt
    rw [ran.steps_eq] at lt
    obtain ⟨c, here, event⟩ := ran.getElem?_events_of_lt lt
    refine ⟨c, _, here, event, ?_⟩
    rw [← live, Array.size_pos_iff, ← Array.isEmpty_eq_false_iff]
  · intro i c
    rw [ran.getElem?_events_eq_exhausted_iff, ran.split]
    cases left with
    | nil =>
      refine iff_of_false (by simp) ?_
      rintro ⟨rfl, here⟩
      have lt : i < consumed.length := by simpa using (List.getElem?_eq_some_iff.mp here).1
      exact absurd le (not_le.mpr (by exact_mod_cast lt))
    | cons d left =>
      rw [stops (List.cons_ne_nil d left), Nat.cast_inj]
      refine and_congr_right ?_
      rintro rfl
      simp
  · rw [ran.steps_eq, ran.take_eq le_rfl, List.take_length]
    exact ran.memory_eq

end

end Simulator

end RegularPattern
