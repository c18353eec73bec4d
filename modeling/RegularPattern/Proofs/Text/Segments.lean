import RegularPattern.Proofs.Text.Lines

/-!
# Lines with their ends

A reader takes one line at a time from its input, together with its end: everything up to the next
line feed and that one too, or the rest of the input if no line feed is left. It decodes such a
piece as a whole and drops the line end from what it has decoded. The lines are the same if the
line ends are dropped first, since these are characters of ASCII.

## Main definitions

* `Text.segments` — the pieces of an input, each with its line end.
* `Text.chomp`, `Text.line` — a piece without its line end.
* `Text.pieces` — the pieces of a text.
* `Text.Decodes` — how far the pieces of an input can be decoded.
-/

namespace RegularPattern.Text

section

variable {α : Type} [DecidableEq α] {feed carriage : α}

/-- The pieces that end right behind a line feed. What follows the last line feed is a piece too,
unless it is empty. -/
def segments (feed : α) : List α → List (List α)
  | [] => []
  | x :: rest =>
    if x = feed then [x] :: segments feed rest
    else match segments feed rest with
      | [] => [[x]]
      | piece :: others => (x :: piece) :: others

/-- Drops a line feed at the end, and one carriage return right before it. -/
def chomp (feed carriage : α) (piece : List α) : List α :=
  if piece.getLast? = some feed then
    let front := piece.dropLast
    if front.getLast? = some carriage then front.dropLast else front
  else piece

/-- A text is its first line and the rest of the text, or it has no line feed. -/
@[elab_as_elim]
theorem line_induction {motive : List α → Prop} (feed : α)
    (last : ∀ xs, feed ∉ xs → motive xs)
    (line : ∀ front rest, feed ∉ front → motive rest → motive (front ++ feed :: rest))
    (xs : List α) : motive xs := by
  by_cases mem : feed ∈ xs
  · obtain ⟨front, rest, split, free⟩ := List.eq_append_cons_of_mem mem
    have shorter : rest.length < xs.length := by
      rw [split, List.length_append, List.length_cons]
      omega
    rw [split]
    exact line front rest free (line_induction feed last line rest)
  · exact last xs mem
termination_by xs.length

theorem segments_of_not_mem {xs : List α} (free : feed ∉ xs) :
    segments feed xs = if xs = [] then [] else [xs] := by
  induction xs with
  | nil => rfl
  | cons x rest ih =>
    rw [List.mem_cons, not_or] at free
    rw [segments, if_neg (Ne.symm free.1), ih free.2]
    cases rest <;> rfl

theorem segments_line {front : List α} (free : feed ∉ front) (rest : List α) :
    segments feed (front ++ feed :: rest) = (front ++ [feed]) :: segments feed rest := by
  induction front with
  | nil => rw [List.nil_append, segments, if_pos rfl, List.nil_append]
  | cons x front ih =>
    rw [List.mem_cons, not_or] at free
    rw [List.cons_append, segments, if_neg (Ne.symm free.1), ih free.2, List.cons_append]

/-- Pieces are cut anew behind every line feed. -/
theorem segments_append {before : List α} (ended : ∀ x ∈ before.getLast?, x = feed)
    (rest : List α) :
    segments feed (before ++ rest) = segments feed before ++ segments feed rest := by
  induction before using line_induction feed with
  | last before free =>
    cases last : before.getLast? with
    | none => simp [List.getLast?_eq_none_iff.mp last, segments]
    | some x =>
      obtain rfl := ended x last
      exact absurd (List.mem_of_getLast? last) free
  | line front before free ih =>
    have ended' : ∀ x ∈ before.getLast?, x = feed := by
      intro x last
      exact ended x (by simp [List.getLast?_append, List.getLast?_cons, Option.mem_def.mp last])
    rw [List.append_assoc, List.cons_append, segments_line free, segments_line free, ih ended',
      List.cons_append]

theorem lines_of_not_mem {xs : List α} (free : feed ∉ xs) :
    lines feed carriage xs = if xs = [] then [] else [xs] := by
  simp [lines, cut_of_not_mem free]

theorem lines_line {front : List α} (free : feed ∉ front) (rest : List α) :
    lines feed carriage (front ++ feed :: rest) =
      dropReturn carriage front :: lines feed carriage rest := by
  simp [lines, cut_line free, List.dropLast_cons_of_ne_nil (cut_ne_nil feed rest),
    List.getLast_cons (cut_ne_nil feed rest)]

@[simp] theorem chomp_concat (feed carriage : α) (front : List α) :
    chomp feed carriage (front ++ [feed]) = dropReturn carriage front := by
  simp [chomp, dropReturn]

/-- Lines are pieces without their ends. -/
theorem lines_eq_map_chomp (feed carriage : α) (xs : List α) :
    lines feed carriage xs = (segments feed xs).map (chomp feed carriage) := by
  induction xs using line_induction feed with
  | last xs free =>
    rw [lines_of_not_mem free, segments_of_not_mem free]
    split
    · rfl
    · have kept : chomp feed carriage xs = xs :=
        if_neg fun last => free (List.mem_of_getLast? last)
      rw [List.map_singleton, kept]
  | line front rest free ih =>
    rw [lines_line free, segments_line free, List.map_cons, chomp_concat, ih]

/-- What a piece loses is a line end. -/
theorem exists_chomp_append (feed carriage : α) (piece : List α) :
    ∃ tail ∈ [[], [feed], [carriage, feed]], piece = chomp feed carriage piece ++ tail := by
  rcases List.eq_nil_or_concat piece with rfl | ⟨front, x, rfl⟩
  · exact ⟨[], by simp [chomp]⟩
  · rw [List.concat_eq_append]
    by_cases ended : x = feed
    · subst ended
      rw [chomp_concat]
      rcases List.eq_nil_or_concat front with rfl | ⟨front, y, rfl⟩
      · exact ⟨[x], by simp [dropReturn]⟩
      · rw [List.concat_eq_append]
        by_cases returned : y = carriage
        · subst returned
          exact ⟨[y, x], by simp⟩
        · exact ⟨[x], by simp [dropReturn, returned]⟩
    · exact ⟨[], by simp [chomp, ended]⟩

end

/-! ## Decoding -/

theorem fromUTF8?_eq_some_iff {bytes : List UInt8} {text : String} :
    String.fromUTF8? ⟨bytes.toArray⟩ = some text ↔ bytes = utf8 text.toList := by
  constructor
  · intro decoded
    unfold String.fromUTF8? at decoded
    split at decoded
    · obtain rfl := Option.some.inj decoded
      rw [utf8_toList]
      rfl
    · cases decoded
  · rintro rfl
    rw [fromUTF8?_utf8, String.ofList_toList]

/-- The line of a piece. -/
def line (piece : String) : String :=
  .ofList (chomp '\n' '\r' piece.toList)

theorem chomp_utf8 (piece : List Char) :
    chomp 0x0a 0x0d (utf8 piece) = utf8 (chomp '\n' '\r' piece) := by
  by_cases ended : piece.getLast? = some '\n'
  · obtain ⟨front, rfl⟩ := List.getLast?_eq_some_iff.mp ended
    rw [chomp_concat, utf8_append, ← dropReturn_utf8]
    exact chomp_concat 0x0a 0x0d (utf8 front)
  · have ended' : ¬(utf8 piece).getLast? = some 0x0a :=
      mt (getLast?_utf8_eq_some_iff (by decide) rfl piece).mp ended
    rw [chomp, chomp, if_neg ended, if_neg ended']

/-- A piece is UTF-8 if and only if it is so without its line end. -/
theorem fromUTF8?_chomp (piece : List UInt8) :
    String.fromUTF8? ⟨(chomp 0x0a 0x0d piece).toArray⟩ =
      (String.fromUTF8? ⟨piece.toArray⟩).map line := by
  apply Option.ext
  intro text
  rw [fromUTF8?_eq_some_iff, Option.map_eq_some_iff]
  simp only [fromUTF8?_eq_some_iff]
  constructor
  · intro chomped
    have whole : ∃ tail : List Char, piece = utf8 (text.toList ++ tail) := by
      obtain ⟨tail, mem, split⟩ := exists_chomp_append 0x0a 0x0d piece
      rw [chomped] at split
      simp only [List.mem_cons, List.not_mem_nil, or_false] at mem
      rcases mem with rfl | rfl | rfl
      · exact ⟨[], by simpa using split⟩
      · exact ⟨['\n'], by rw [utf8_append]; exact split⟩
      · exact ⟨['\r', '\n'], by rw [utf8_append]; exact split⟩
    obtain ⟨tail, rfl⟩ := whole
    refine ⟨.ofList (text.toList ++ tail), by rw [String.toList_ofList], ?_⟩
    rw [chomp_utf8] at chomped
    have same := (fromUTF8?_utf8 _).symm.trans (congrArg (String.fromUTF8? ⟨·.toArray⟩) chomped)
    rw [fromUTF8?_utf8, String.ofList_toList] at same
    rw [line, String.toList_ofList]
    exact Option.some.inj same
  · rintro ⟨piece', rfl, rfl⟩
    rw [chomp_utf8, line, String.toList_ofList]

/-- The pieces of a text, each with its line end. -/
def pieces (text : String) : List String :=
  (segments '\n' text.toList).map .ofList

theorem segments_utf8 (text : List Char) :
    segments 0x0a (utf8 text) = (segments '\n' text).map utf8 := by
  have feed_iff (text : List Char) : 0x0a ∈ utf8 text ↔ '\n' ∈ text :=
    mem_utf8_iff (by decide) rfl
  induction text using line_induction '\n' with
  | last text free =>
    rw [segments_of_not_mem free, segments_of_not_mem (mt (feed_iff text).mp free)]
    simp only [utf8_eq_nil_iff]
    split <;> rfl
  | line front rest free ih =>
    have front_free := mt (feed_iff front).mp free
    have feed : utf8 (front ++ ['\n']) = utf8 front ++ [0x0a] := utf8_append front ['\n']
    rw [segments_line free, List.map_cons, ← ih, feed, utf8_append, utf8_cons]
    exact segments_line front_free (utf8 rest)

/-- The pieces of an input that can be decoded, up to the first one that cannot; `left` begins with
that one. -/
structure Decodes (input : List UInt8) (pieces : List String) (left : List (List UInt8)) :
    Prop where
  segments_eq : segments 0x0a input = pieces.map (·.toUTF8.toList) ++ left
  stops : ∀ bad ∈ left.head?, String.fromUTF8? ⟨bad.toArray⟩ = none

/-- Behind a line that cannot be decoded, what follows makes no difference. -/
theorem Decodes.append {before bad : List UInt8} {pieces : List String}
    {left : List (List UInt8)} (decodes : Decodes before pieces left)
    (ended : ∀ byte ∈ before.getLast?, byte = 0x0a) (free : 0x0a ∉ bad)
    (undecodable : String.fromUTF8? ⟨(bad ++ [0x0a]).toArray⟩ = none) (after : List UInt8) :
    Decodes (before ++ (bad ++ 0x0a :: after)) pieces
      (left ++ (bad ++ [0x0a]) :: segments 0x0a after) where
  segments_eq := by
    rw [segments_append ended, segments_line free, decodes.segments_eq, List.append_assoc]
  stops := by
    cases left with
    | nil => simpa using undecodable
    | cons first others => simpa using decodes.stops

theorem decodes_toUTF8 (text : String) : Decodes text.toUTF8.toList (pieces text) [] where
  segments_eq := by
    simp only [toList_toUTF8, segments_utf8, pieces, List.append_nil, List.map_map,
      Function.comp_def, String.toList_ofList]
  stops := nofun

theorem exists_decodes (input : List UInt8) : ∃ pieces left, Decodes input pieces left := by
  suffices h : ∀ all : List (List UInt8), ∃ (pieces : List String) (left : List (List UInt8)),
      all = pieces.map (·.toUTF8.toList) ++ left ∧
      ∀ bad ∈ left.head?, String.fromUTF8? ⟨bad.toArray⟩ = none by
    obtain ⟨pieces, left, split, stops⟩ := h (segments 0x0a input)
    exact ⟨pieces, left, split, stops⟩
  intro all
  induction all with
  | nil => exact ⟨[], [], rfl, nofun⟩
  | cons bytes others ih =>
    cases decoded : String.fromUTF8? ⟨bytes.toArray⟩ with
    | none => exact ⟨[], bytes :: others, rfl, by simpa using decoded⟩
    | some piece =>
      obtain ⟨pieces, left, split, stops⟩ := ih
      refine ⟨piece :: pieces, left, ?_, stops⟩
      rw [List.map_cons, List.cons_append, toList_toUTF8, ← fromUTF8?_eq_some_iff.mp decoded, split]

/-- What is read of an input are the lines of the pieces that can be decoded. -/
theorem Decodes.decodeLines_eq {input : List UInt8} {pieces : List String}
    {left : List (List UInt8)} (decodes : Decodes input pieces left) :
    decodeLines input = ⟨pieces.map line, left.isEmpty⟩ := by
  obtain ⟨split, stops⟩ := decodes
  rw [decodeLines, lines_eq_map_chomp, split]
  clear split
  induction pieces with
  | nil =>
    cases left with
    | nil => rfl
    | cons bad others =>
      simp [decodeAll, fromUTF8?_chomp, stops bad rfl]
  | cons piece pieces ih =>
    have decoded : String.fromUTF8? ⟨piece.toUTF8.toList.toArray⟩ = some piece :=
      fromUTF8?_eq_some_iff.mpr (toList_toUTF8 piece)
    rw [List.map_cons, List.cons_append, List.map_cons, decodeAll, fromUTF8?_chomp, decoded, ih]
    rfl

end RegularPattern.Text
