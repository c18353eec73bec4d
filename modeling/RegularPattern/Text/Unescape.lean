import RegularPattern.Text.Escape

/-!
# Reading escaped characters

A written number or character is read from the front of a text, together with what follows it.
Main statement: whatever characters are taken for visible, and whatever quotes are escaped, an
escaped character is read back.

## Main definitions

* `Text.digit?`, `Text.readNumber` — digits, and a number in a given base.
* `Text.unescape?` — a character in its written form.
-/

namespace RegularPattern.Text

/-! ## Numbers -/

/-- The value of a digit, in lower case. -/
def digit? (base : Nat) (c : Char) : Option Nat :=
  (List.range base).find? fun d => d.digitChar == c

/-- Continues a number with the digits at the front of a text. -/
def readNumber (base n : Nat) : List Char → Nat × List Char
  | [] => (n, [])
  | c :: rest =>
    match digit? base c with
    | some d => readNumber base (base * n + d) rest
    | none => (n, c :: rest)

variable {base : Nat}

theorem digitChar_ne_of_lt {d e : Nat} (le : d < 16) (lt : e < d) : e.digitChar ≠ d.digitChar := by
  have all : ∀ d < 16, ∀ e < d, e.digitChar ≠ d.digitChar := by decide
  exact all d le e lt

theorem digit?_digitChar (le : base ≤ 16) {d : Nat} (lt : d < base) :
    digit? base d.digitChar = some d := by
  rw [digit?, List.find?_range_eq_some]
  refine ⟨by simp, by simpa using lt, fun e lt' => ?_⟩
  simpa using digitChar_ne_of_lt (Nat.lt_of_lt_of_le lt le) lt'

/-- The digits of a number are read, whatever follows them. -/
theorem readNumber_zero_toDigits (gt : 1 < base) (le : base ≤ 16) (n : Nat) (rest : List Char) :
    readNumber base 0 (Nat.toDigits base n ++ rest) = readNumber base n rest := by
  induction n using Nat.base_induction base gt generalizing rest with
  | single d lt =>
    rw [Nat.toDigits_of_lt_base lt, List.singleton_append, readNumber, digit?_digitChar le lt]
    simp
  | digit n d lt pos ih =>
    rw [← Nat.toDigits_append_toDigits gt pos lt, List.append_assoc, ih,
      Nat.toDigits_of_lt_base lt, List.singleton_append, readNumber, digit?_digitChar le lt]

theorem readNumber_toDigits (gt : 1 < base) (le : base ≤ 16) (n : Nat) {c : Char}
    (stops : digit? base c = none) (rest : List Char) :
    readNumber base 0 (Nat.toDigits base n ++ c :: rest) = (n, c :: rest) := by
  rw [readNumber_zero_toDigits gt le, readNumber, stops]

theorem exists_digit_of_mem_toDigits (gt : 1 < base) {n : Nat} {c : Char}
    (mem : c ∈ Nat.toDigits base n) : ∃ d < base, c = d.digitChar := by
  induction n using Nat.base_induction base gt with
  | single d lt =>
    rw [Nat.toDigits_of_lt_base lt, List.mem_singleton] at mem
    exact ⟨d, lt, mem⟩
  | digit n d lt pos ih =>
    rw [← Nat.toDigits_append_toDigits gt pos lt, List.mem_append,
      Nat.toDigits_of_lt_base lt, List.mem_singleton] at mem
    rcases mem with mem | rfl
    · exact ih mem
    · exact ⟨d, lt, rfl⟩

theorem newline_not_mem_toDigits (gt : 1 < base) (le : base ≤ 16) (n : Nat) :
    '\n' ∉ Nat.toDigits base n := by
  intro mem
  obtain ⟨d, lt, same⟩ := exists_digit_of_mem_toDigits gt mem
  have never : ∀ d < 16, '\n' ≠ d.digitChar := by decide
  exact never d (Nat.lt_of_lt_of_le lt le) same

/-! ## Characters -/

/-- The character written at the front of a text, and what follows it. -/
def unescape? : List Char → Option (Char × List Char)
  | [] => none
  | '\\' :: '0' :: rest => some ('\x00', rest)
  | '\\' :: 't' :: rest => some ('\t', rest)
  | '\\' :: 'r' :: rest => some ('\r', rest)
  | '\\' :: 'n' :: rest => some ('\n', rest)
  | '\\' :: 'u' :: '\x7b' :: rest =>
    match readNumber 16 0 rest with
    | (number, '\x7d' :: rest) => some (.ofNat number, rest)
    | _ => none
  | '\\' :: c :: rest => if c = '\\' ∨ Quotes.both.escapes c then some (c, rest) else none
  | c :: rest => if c = '\\' then none else some (c, rest)

theorem unescape?_numbered (c : Char) (rest : List Char) :
    unescape? (numbered c ++ rest) = some (c, rest) := by
  have read : readNumber 16 0 (Nat.toDigits 16 c.toNat ++ '\x7d' :: rest) =
      (c.toNat, '\x7d' :: rest) := readNumber_toDigits (by decide) (by decide) _ (by decide) rest
  simp [numbered, unescape?, read]

/-- A character is read back from its written form. -/
theorem unescape?_escape (visible : Char → Bool) (quotes : Quotes) (c : Char)
    (rest : List Char) : unescape? (escape visible quotes c ++ rest) = some (c, rest) := by
  unfold escape
  split
  case h_6 _ _ _ _ _ backslash =>
    split
    · next quote =>
      have either : c = '\'' ∨ c = '"' := by
        cases quotes <;> simp_all [Quotes.escapes]
      rcases either with rfl | rfl <;> rfl
    · split
      · have single : unescape? (c :: rest) = if c = '\\' then none else some (c, rest) := by
          rw [unescape?] <;> simp_all
        rw [List.singleton_append, single, if_neg backslash]
      · exact unescape?_numbered c rest
  all_goals rfl

/-- A written form holds no line feed, also that of the line feed itself. -/
theorem newline_not_mem_escape (visible : Char → Bool) (quotes : Quotes) (c : Char) :
    '\n' ∉ escape visible quotes c := by
  unfold escape
  split
  case h_6 _ _ _ _ newline _ =>
    split
    · simpa using Ne.symm newline
    · split
      · simpa using Ne.symm newline
      · intro mem
        have digit : '\n' ∈ Nat.toDigits 16 c.toNat := by simpa [numbered] using mem
        exact newline_not_mem_toDigits (by decide) (by decide) c.toNat digit
  all_goals decide

end RegularPattern.Text
