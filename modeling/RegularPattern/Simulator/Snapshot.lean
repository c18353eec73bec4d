import RegularPattern.Simulator.Basic

/-!
# A simulator's memory as text
-/

namespace RegularPattern.Simulator

/-- Numbers in brackets, with commas between them. -/
def bracketed (numbers : List Nat) : String :=
  "[" ++ ", ".intercalate (numbers.map toString) ++ "]"

/-- The lists, the stack from its bottom to its top, and the stamps. -/
def snapshot (sim : Simulator) : String :=
  "current: " ++ bracketed sim.current.toList ++ ", next: " ++ bracketed sim.next.toList
    ++ ", stack: " ++ bracketed sim.stack.reverse ++ ", last_list: "
    ++ bracketed sim.stamps.toList ++ ", list_id: " ++ toString sim.stamp

end RegularPattern.Simulator
