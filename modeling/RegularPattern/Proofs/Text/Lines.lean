import RegularPattern.Text.Lines

/-!
# Lines of encoded texts

A line feed and a carriage return are bytes of their own in the encoded form of a text, and no part
of any other character. So it makes no difference whether a text is cut into lines before or after
it is encoded, and what is cut from an encoded text can be decoded line by line.

## Main definitions

* `Text.utf8` — the bytes of a text.
-/

namespace RegularPattern.Text

/-- The bytes of a text. -/
def utf8 (text : List Char) : List UInt8 :=
  text.flatMap String.utf8EncodeChar

@[simp] theorem utf8_nil : utf8 [] = [] := rfl

@[simp] theorem utf8_cons (c : Char) (text : List Char) :
    utf8 (c :: text) = String.utf8EncodeChar c ++ utf8 text := rfl

theorem utf8_append (first second : List Char) :
    utf8 (first ++ second) = utf8 first ++ utf8 second :=
  List.flatMap_append

theorem utf8_eq_nil_iff {text : List Char} : utf8 text = [] ↔ text = [] := by
  cases text <;> simp

/-! ## Bytes of strings -/

/-- The loop gathers what is left from `i` on, behind what was gathered before. -/
theorem toList_loop {bytes : ByteArray} {i : Nat} {rest : List UInt8}
    (left : bytes.data.toList.drop i = rest) (done : List UInt8) :
    ByteArray.toList.loop bytes i done = done.reverse ++ rest := by
  induction rest generalizing i done with
  | nil =>
    have ge : bytes.size ≤ i := by simpa using left
    rw [ByteArray.toList.loop, if_neg (Nat.not_lt.mpr ge), List.append_nil]
  | cons byte rest ih =>
    have next : bytes.data.toList.drop (i + 1) = rest := by
      rw [← List.tail_drop, left, List.tail_cons]
    have here : bytes.data[i]? = some byte := by
      rw [← Array.getElem?_toList, ← List.head?_drop, left, List.head?_cons]
    have lt : i < bytes.size := (Array.getElem?_eq_some_iff.mp here).1
    rw [ByteArray.toList.loop, if_pos lt, ih next, ByteArray.get!, getElem!_def, here,
      List.reverse_cons, List.append_assoc, List.singleton_append]

theorem utf8_toList (text : String) : utf8 text.toList = text.toByteArray.data.toList := by
  rw [← String.utf8Encode_toList]
  exact List.toList_data_toByteArray.symm

theorem toList_toUTF8 (text : String) : text.toUTF8.toList = utf8 text.toList :=
  toList_loop (List.drop_zero.trans (utf8_toList text).symm) []

theorem fromUTF8?_utf8 (text : List Char) :
    String.fromUTF8? ⟨(utf8 text).toArray⟩ = some (.ofList text) := by
  have bytes : (⟨(utf8 text).toArray⟩ : ByteArray) = (String.ofList text).toByteArray := by
    rw [String.toByteArray_ofList]
    exact ByteArray.ext (Array.ext' List.toList_data_toByteArray.symm)
  rw [bytes, String.fromUTF8?, dif_pos (String.ofList text).isValidUTF8]
  rfl

theorem decodeAll_utf8 (texts : List (List Char)) :
    decodeAll (texts.map utf8) = ⟨texts.map .ofList, true⟩ := by
  induction texts with
  | nil => rfl
  | cons text texts ih =>
    rw [List.map_cons, decodeAll, fromUTF8?_utf8, ih]
    rfl

/-! ## Bytes of ASCII -/

/-- A byte of ASCII is the whole form of its character. -/
theorem utf8EncodeChar_eq_of_mem {c : Char} {byte : UInt8} (mem : byte ∈ String.utf8EncodeChar c)
    (lt : byte.toNat < 128) : String.utf8EncodeChar c = [byte] ∧ c.toNat = byte.toNat := by
  unfold String.utf8EncodeChar at mem ⊢
  simp only at mem ⊢
  split at mem
  · next le =>
    obtain rfl := List.mem_singleton.mp mem
    rw [if_pos le]
    refine ⟨rfl, ?_⟩
    simp only [UInt8.toNat_ofNat', Char.toNat]
    omega
  · -- All bytes of longer forms have the highest bit.
    exfalso
    split at mem
    · simp only [List.mem_cons, List.not_mem_nil, or_false] at mem
      rcases mem with rfl | rfl <;> simp only [UInt8.toNat_ofNat'] at lt <;> omega
    · split at mem
      · simp only [List.mem_cons, List.not_mem_nil, or_false] at mem
        rcases mem with rfl | rfl | rfl <;> simp only [UInt8.toNat_ofNat'] at lt <;> omega
      · simp only [List.mem_cons, List.not_mem_nil, or_false] at mem
        rcases mem with rfl | rfl | rfl | rfl <;> simp only [UInt8.toNat_ofNat'] at lt <;> omega

theorem utf8EncodeChar_of_lt {byte : UInt8} {c : Char} (lt : byte.toNat < 128)
    (code : c.toNat = byte.toNat) : String.utf8EncodeChar c = [byte] := by
  have le : c.val.toNat ≤ 127 := by
    rw [← Char.toNat, code]
    omega
  rw [String.utf8EncodeChar]
  simp only [if_pos le]
  rw [← Char.toNat, code, UInt8.ofNat_toNat]

/-- A character of ASCII whose byte occurs in the form of another one is that one. -/
theorem eq_of_mem_utf8EncodeChar {c d : Char} {byte : UInt8} (lt : byte.toNat < 128)
    (code : d.toNat = byte.toNat) (mem : byte ∈ String.utf8EncodeChar c) : c = d := by
  have same : c.toNat = d.toNat := (utf8EncodeChar_eq_of_mem mem lt).2.trans code.symm
  rw [← Char.ofNat_toNat c, same, Char.ofNat_toNat]

theorem mem_utf8_iff {byte : UInt8} {c : Char} (lt : byte.toNat < 128)
    (code : c.toNat = byte.toNat) {text : List Char} : byte ∈ utf8 text ↔ c ∈ text := by
  rw [utf8, List.mem_flatMap]
  constructor
  · rintro ⟨d, inText, mem⟩
    rwa [← eq_of_mem_utf8EncodeChar lt code mem]
  · intro inText
    exact ⟨c, inText, by simp [utf8EncodeChar_of_lt lt code]⟩

/-! ## Cutting -/

section

variable {α : Type} [DecidableEq α] {feed carriage : α}

theorem cut_append {front : List α} (free : feed ∉ front) (rest : List α) :
    cut feed (front ++ rest) = (cut feed rest).modifyHead (front ++ ·) := by
  induction front with
  | nil => cases pieces : cut feed rest <;> simp [pieces]
  | cons x front ih =>
    rw [List.mem_cons, not_or] at free
    rw [List.cons_append, cut, if_neg (Ne.symm free.1), ih free.2]
    cases cut feed rest <;> rfl

theorem cut_of_not_mem {line : List α} (free : feed ∉ line) : cut feed line = [line] := by
  simpa [cut] using cut_append free []

theorem cut_line {line : List α} (free : feed ∉ line) (rest : List α) :
    cut feed (line ++ feed :: rest) = line :: cut feed rest := by
  rw [cut_append free, cut, if_pos rfl, List.modifyHead_cons, List.append_nil]

theorem cut_flatMap_line {texts : List (List α)} (free : ∀ text ∈ texts, feed ∉ text)
    (rest : List α) : cut feed (texts.flatMap (· ++ [feed]) ++ rest) = texts ++ cut feed rest := by
  induction texts with
  | nil => rfl
  | cons text texts ih =>
    obtain ⟨here, others⟩ := List.forall_mem_cons.mp free
    rw [List.flatMap_cons, List.append_assoc, List.append_assoc, List.singleton_append,
      cut_line here, ih others, List.cons_append]

theorem dropReturn_eq_self {line : List α} (ne : line.getLast? ≠ some carriage) :
    dropReturn carriage line = line :=
  if_neg ne

@[simp] theorem dropReturn_concat (carriage : α) (front : List α) :
    dropReturn carriage (front ++ [carriage]) = front := by
  simp [dropReturn]

/-- Texts that hold no line feed and do not end with a carriage return are the lines of what they
make up, each with a line feed behind it. -/
theorem lines_flatMap_line {texts : List (List α)}
    (single : ∀ text ∈ texts, feed ∉ text ∧ text.getLast? ≠ some carriage) :
    lines feed carriage (texts.flatMap (· ++ [feed])) = texts := by
  have pieces := cut_flatMap_line (fun text mem => (single text mem).1) []
  rw [List.append_nil, cut] at pieces
  have kept : texts.map (dropReturn carriage) = texts := by
    conv => rhs; rw [← List.map_id texts]
    exact List.map_congr_left fun text mem => dropReturn_eq_self (single text mem).2
  simp [lines, pieces, kept]

end

/-! ## Cutting encoded texts -/

theorem cut_utf8 (text : List Char) : cut 0x0a (utf8 text) = (cut '\n' text).map utf8 := by
  induction text with
  | nil => rfl
  | cons c text ih =>
    rw [utf8_cons, cut]
    split
    · next feed =>
      subst feed
      exact congrArg ([] :: ·) ih
    · next ne =>
      have free : (0x0a : UInt8) ∉ String.utf8EncodeChar c :=
        fun mem => ne (eq_of_mem_utf8EncodeChar (by decide) (by decide) mem)
      rw [cut_append free, ih]
      cases cut '\n' text <;> rfl

theorem getLast?_utf8_eq_some_iff {byte : UInt8} {c : Char} (lt : byte.toNat < 128)
    (code : c.toNat = byte.toNat) (text : List Char) :
    (utf8 text).getLast? = some byte ↔ text.getLast? = some c := by
  rcases List.eq_nil_or_concat text with rfl | ⟨front, d, rfl⟩
  · simp
  · rw [List.concat_eq_append, utf8_append, utf8_cons, utf8_nil, List.append_nil,
      List.getLast?_append, List.getLast?_eq_some_getLast String.utf8EncodeChar_ne_nil,
      Option.some_or, List.getLast?_concat, Option.some_inj, Option.some_inj]
    constructor
    · rintro rfl
      exact eq_of_mem_utf8EncodeChar lt code (List.getLast_mem String.utf8EncodeChar_ne_nil)
    · rintro rfl
      simp [utf8EncodeChar_of_lt lt code]

theorem dropReturn_utf8 (line : List Char) :
    dropReturn 0x0d (utf8 line) = utf8 (dropReturn '\r' line) := by
  by_cases last : line.getLast? = some '\r'
  · obtain ⟨front, rfl⟩ := List.getLast?_eq_some_iff.mp last
    rw [dropReturn_concat, utf8_append]
    exact dropReturn_concat 0x0d (utf8 front)
  · have last' : ¬(utf8 line).getLast? = some 0x0d :=
      mt (getLast?_utf8_eq_some_iff (by decide) rfl line).mp last
    rw [dropReturn_eq_self last, dropReturn_eq_self last']

theorem lines_utf8 (text : List Char) :
    lines 0x0a 0x0d (utf8 text) = (lines '\n' '\r' text).map utf8 := by
  have dropped : (fun line => dropReturn 0x0d (utf8 line)) = fun line =>
      utf8 (dropReturn '\r' line) := funext dropReturn_utf8
  simp only [lines, cut_utf8, List.getLast_map, utf8_eq_nil_iff, List.map_append,
    ← List.map_dropLast, List.map_map, Function.comp_def, dropped]
  split <;> rfl

/-- The lines of an encoded text are the lines of the text. -/
theorem decodeLines_toUTF8 (text : String) :
    decodeLines text.toUTF8.toList = ⟨(lines '\n' '\r' text.toList).map .ofList, true⟩ := by
  rw [decodeLines, toList_toUTF8, lines_utf8, decodeAll_utf8]

/-- Texts of one line each are read back from what they make up, each with a line feed behind it. -/
theorem decodeLines_join {texts : List String}
    (single : ∀ text ∈ texts, '\n' ∉ text.toList ∧ text.toList.getLast? ≠ some '\r') :
    decodeLines (String.join (texts.map (· ++ "\n"))).toUTF8.toList = ⟨texts, true⟩ := by
  have written : (String.join (texts.map (· ++ "\n"))).toList =
      (texts.map String.toList).flatMap (· ++ ['\n']) := by
    simp only [String.toList_join, List.flatMap_map, String.toList_append]
    rfl
  have back : (texts.map String.toList).map String.ofList = texts := by
    simp [List.map_map, Function.comp_def]
  rw [decodeLines_toUTF8, written, lines_flatMap_line (by simpa using single), back]

end RegularPattern.Text
