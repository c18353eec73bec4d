/-!
# Flags

A set of flags for compiling a pattern, written as a number with one bit for each flag. One bit is
known; all others are unknown.

## Main definitions

* `Flags` — a set of known flags.
* `Flags.bits`, `Flags.ofBits?`, `Flags.ofBitsTruncate` — the number of a set, and back.
-/

namespace RegularPattern

/-- A set of flags. `debug` asks for the automaton in the log. -/
structure Flags where
  debug : Bool := false
  deriving DecidableEq

namespace Flags

def none : Flags := ⟨false⟩

/-- All known flags. -/
def all : Flags := ⟨true⟩

/-- The bit of `debug`. -/
def debugBit : Nat := 7

def bits (flags : Flags) : Nat :=
  if flags.debug then 1 <<< debugBit else 0

/-- Drops the unknown bits. -/
def ofBitsTruncate (bits : Nat) : Flags :=
  ⟨bits.testBit debugBit⟩

/-- Refuses a number with unknown bits. -/
def ofBits? (bits : Nat) : Option Flags :=
  if (ofBitsTruncate bits).bits = bits then some (ofBitsTruncate bits) else Option.none

@[simp] theorem ofBitsTruncate_bits (flags : Flags) : ofBitsTruncate flags.bits = flags := by
  rcases flags with ⟨_ | _⟩ <;> rfl

@[simp] theorem ofBits?_bits (flags : Flags) : ofBits? flags.bits = some flags := by
  simp [ofBits?]

def isEmpty (flags : Flags) : Bool :=
  !flags.debug

def isAll (flags : Flags) : Bool :=
  flags.debug

/-- Whether all flags of the second set are in the first. -/
def contains (flags other : Flags) : Bool :=
  !other.debug || flags.debug

def intersects (flags other : Flags) : Bool :=
  flags.debug && other.debug

def union (flags other : Flags) : Flags :=
  ⟨flags.debug || other.debug⟩

def inter (flags other : Flags) : Flags :=
  ⟨flags.debug && other.debug⟩

def difference (flags other : Flags) : Flags :=
  ⟨flags.debug && !other.debug⟩

/-- The flags that are in exactly one of two sets. -/
def toggle (flags other : Flags) : Flags :=
  ⟨flags.debug ^^ other.debug⟩

/-- The known flags that are not in a set. -/
def complement (flags : Flags) : Flags :=
  ⟨!flags.debug⟩

def name (flags : Flags) : String :=
  if flags.debug then "DEBUG" else "NO_FLAG"

end Flags

end RegularPattern
