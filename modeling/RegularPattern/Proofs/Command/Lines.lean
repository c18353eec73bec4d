import RegularPattern.Proofs.Command.Input
import RegularPattern.Proofs.Text.Segments

/-!
# Lines of the standard input

Without texts among the arguments, the lines of the standard input are answered one by one. The
first line that cannot be decoded ends the answers with an error, and what comes behind it makes no
difference. An encoded text may be cut into lines before or after it is encoded.
-/

namespace RegularPattern.Command

open Text

variable {automaton : Automaton}

/-- If the pattern compiles, each line that can be decoded is answered as the automaton decides. -/
theorem Request.respondWith_of_decodes (request : Request) (display : Display)
    (noTexts : request.texts = [])
    (compiled : RegularPattern.compile request.pattern .none = .ok automaton)
    {input : List UInt8} {pieces : List String} {left : List (List UInt8)}
    (decodes : Decodes input pieces left) :
    let texts := pieces.map line
    let printed := (if request.dot then automaton.dotWith display.visible ++ "\n" else "")
      ++ String.join (texts.map fun text => if automaton.accepts text then "true\n" else "false\n")
    request.respondWith display input =
      if left = [] then ⟨if texts.all automaton.accepts then 0 else 1, printed, ""⟩
      else ⟨1, printed, "Error: stream did not contain valid UTF-8\n"⟩ := by
  have read : request.inputTexts input = ⟨pieces.map line, left.isEmpty⟩ := by
    rw [inputTexts, noTexts, ← decodes.decodeLines_eq]
    rfl
  rw [request.respondWith_of_compiled display compiled read]
  simp only [List.isEmpty_iff]

/-- Lines of the input are answered up to the first one that is not UTF-8, which the response
reports as an error, whatever the answers were; the bytes behind that line have no influence. The
lines of an encoded text are the lines of the text. -/
theorem respond_decodable_lines {read : List String → Invocation} (display : Display)
    {arguments : List String} {pattern : String} {dot debug : Bool}
    (asked : read arguments = .request ⟨pattern, [], dot, debug⟩)
    (compiled : compile pattern .none = .ok automaton) :
    let respond := (read arguments).respondWith display
    let printed (texts : List String) :=
      (if dot then automaton.dotWith display.visible ++ "\n" else "")
        ++ String.join (texts.map fun text =>
          if automaton.accepts text then "true\n" else "false\n")
    (∀ input, ∃ pieces left, Decodes input pieces left) ∧
    (∀ input pieces left, Decodes input pieces left →
      let texts := pieces.map line
      respond input =
        if left = [] then ⟨if texts.all automaton.accepts then 0 else 1, printed texts, ""⟩
        else ⟨1, printed texts, "Error: stream did not contain valid UTF-8\n"⟩) ∧
    (∀ before bad after after' : List UInt8, (∀ byte ∈ before.getLast?, byte = 0x0a) →
      0x0a ∉ bad → String.fromUTF8? ⟨(bad ++ [0x0a]).toArray⟩ = none →
      respond (before ++ (bad ++ 0x0a :: after)) = respond (before ++ (bad ++ 0x0a :: after'))) ∧
    ∀ text : String,
      let texts := (pieces text).map line
      respond text.toUTF8.toList =
        ⟨if texts.all automaton.accepts then 0 else 1, printed texts, ""⟩ := by
  simp only [asked, Invocation.respondWith]
  have answer {input : List UInt8} {pieces : List String} {left : List (List UInt8)}
      (decodes : Decodes input pieces left) :=
    Request.respondWith_of_decodes ⟨pattern, [], dot, debug⟩ display rfl compiled decodes
  refine ⟨exists_decodes, ?lines, ?behind, ?encoded⟩
  case lines =>
    intro input pieces left decodes
    exact answer decodes
  case behind =>
    intro before bad after after' ended free undecodable
    obtain ⟨pieces, left, decodes⟩ := exists_decodes before
    simp only [answer (decodes.append ended free undecodable _),
      List.append_ne_nil_of_right_ne_nil left (List.cons_ne_nil _ _), if_false]
  case encoded =>
    intro text
    exact answer (decodes_toUTF8 text)

/-- A line with both line ends and an empty line, and a byte that stands in no character. -/
theorem respond_decodable_lines_of_stray_byte :
    ∃ automaton, compile "(a|é)*" .none = .ok automaton ∧
      let input := [0x61, 0xc3, 0xa9, 0x0d, 0x0a, 0x0a, 0xff, 0x0a, 0x61]
      Decodes input ["aé\r\n", "\n"] [[0xff, 0x0a], [0x61]] ∧
      (Invocation.ofArguments ["--dot", "(a|é)*"]).respondWith .plain input =
        ⟨1, automaton.dot ++ "\n" ++ String.join (["aé", ""].map fun text =>
            if automaton.accepts text then "true\n" else "false\n"),
          "Error: stream did not contain valid UTF-8\n"⟩ := by
  obtain ⟨automaton, compiled⟩ :=
    exists_compile (by decide : Brackets.fault? "(a|é)*".toList = none) .none
  have asked : Invocation.ofArguments ["--dot", "(a|é)*"] =
      .request ⟨"(a|é)*", [], true, false⟩ := by decide
  have decodes : Decodes [0x61, 0xc3, 0xa9, 0x0d, 0x0a, 0x0a, 0xff, 0x0a, 0x61]
      ["aé\r\n", "\n"] [[0xff, 0x0a], [0x61]] := by
    refine ⟨?_, ?_⟩
    · simp only [toList_toUTF8]
      decide
    · intro bad first
      obtain rfl : [0xff, 0x0a] = bad := by simpa using first
      decide
  exact ⟨automaton, compiled, decodes,
    (respond_decodable_lines .plain asked compiled).2.1 _ _ _ decodes⟩

end RegularPattern.Command
