import RegularPattern.Command.Response
import RegularPattern.Proofs.Automaton.Language
import RegularPattern.Proofs.Automaton.Message
import RegularPattern.Proofs.Text.Lines

/-!
# Texts from arguments and from the input

It makes no difference whether texts are given as arguments or as lines of the standard input. In
both cases the answer to each text is that of the automaton alone, although one simulator serves
all texts. Of the reader of the arguments only one thing is relied on, and of the surroundings, how
texts are shown, nothing.

## Main definitions

* `Command.ReadsValues` — what is relied on about a reader of arguments.
-/

namespace RegularPattern.Command

variable {automaton : Automaton}

/-! ## Arguments -/

/-- The request with the given names of options. -/
def Request.ofOptions (options : List String) (pattern : String) (texts : List String) : Request :=
  ⟨pattern, texts, decide ("--dot" ∈ options), decide ("--debug" ∈ options)⟩

/-- Each of the two options may be given once, in any order, and behind the first `--` every
argument is a value: the pattern first, then the texts. -/
def ReadsValues (read : List String → Invocation) : Prop :=
  ∀ (options : List String) (pattern : String) (texts : List String), options.Nodup →
    (∀ name ∈ options, name = "--dot" ∨ name = "--debug") →
      read (options ++ "--" :: pattern :: texts) = .request (.ofOptions options pattern texts)

namespace Invocation

theorem read_separator (options : Options) (values rest : List String) :
    read options values ("--" :: rest) = ofValues options (values ++ rest) := rfl

theorem read_dot (options : Options) (values rest : List String) :
    read options values ("--dot" :: rest) =
      if options.dot then misuse else read { options with dot := true } values rest := rfl

theorem read_debug (options : Options) (values rest : List String) :
    read options values ("--debug" :: rest) =
      if options.debug then misuse else read { options with debug := true } values rest := rfl

/-- Options that have not been given before are read up to the separator. -/
theorem read_options {names : List String} {options : Options} (nodup : names.Nodup)
    (known : ∀ name ∈ names, name = "--dot" ∨ name = "--debug")
    (dot : options.dot = true → "--dot" ∉ names)
    (debug : options.debug = true → "--debug" ∉ names) (rest : List String) :
    read options [] (names ++ "--" :: rest) =
      ofValues ⟨options.dot || decide ("--dot" ∈ names),
        options.debug || decide ("--debug" ∈ names)⟩ rest := by
  induction names generalizing options with
  | nil => simp [read_separator]
  | cons name names ih =>
    obtain ⟨fresh, nodup'⟩ := List.nodup_cons.mp nodup
    obtain ⟨here, known'⟩ := List.forall_mem_cons.mp known
    rcases here with rfl | rfl
    · have new : options.dot = false := by simpa using dot
      rw [List.cons_append, read_dot, new, if_neg nofun, ih nodup' known' (fun _ => fresh)]
      · simp
      · exact fun given mem => debug given (List.mem_cons_of_mem _ mem)
    · have new : options.debug = false := by simpa using debug
      rw [List.cons_append, read_debug, new, if_neg nofun, ih nodup' known' _ (fun _ => fresh)]
      · simp
      · exact fun given mem => dot given (List.mem_cons_of_mem _ mem)

theorem readsValues_ofArguments : ReadsValues ofArguments := by
  intro options pattern texts nodup known
  rw [ofArguments, read_options nodup known Bool.false_ne_true.elim Bool.false_ne_true.elim]
  simp [ofValues, Request.ofOptions]

end Invocation

/-! ## Answers -/

theorem answers_map (accepts : String → Bool) (texts : List String) :
    answers (texts.map accepts) =
      String.join (texts.map fun text => if accepts text then "true\n" else "false\n") := by
  rw [answers, List.map_map]
  rfl

namespace Request

variable (request : Request) (display : Display)

theorem respondWith_of_refused {error : PatternError}
    (refused : RegularPattern.compile request.pattern .none = .error error) (input : List UInt8) :
    request.respondWith display input = ⟨2, "", error.message display.colouring ++ "\n"⟩ := by
  have same : request.compile = .error error := by
    rw [Request.compile, compile_flags, refused]
    rfl
  rw [respondWith, same]

/-- If the pattern compiles, each text that was read is answered as the automaton decides. -/
theorem respondWith_of_compiled
    (compiled : RegularPattern.compile request.pattern .none = .ok automaton)
    {input : List UInt8} {decoded : Text.Decoded} (read : request.inputTexts input = decoded) :
    let printed := (if request.dot then automaton.dotWith display.visible ++ "\n" else "")
      ++ String.join (decoded.texts.map fun text =>
        if automaton.accepts text then "true\n" else "false\n")
    request.respondWith display input =
      if decoded.complete then
        ⟨if decoded.texts.all automaton.accepts then 0 else 1, printed, ""⟩
      else
        ⟨1, printed, "Error: stream did not contain valid UTF-8\n"⟩ := by
  intro printed
  have same : request.compile = .ok { automaton with flags := ⟨request.debug⟩ } := by
    rw [Request.compile, compile_flags, compiled]
    rfl
  have answered (texts : List String) :
      (({ automaton with flags := ⟨request.debug⟩ } : Automaton).verdicts texts).map
        Verdict.accepted = texts.map automaton.accepts := by
    rw [Automaton.map_accepted_verdicts (wellFormed_of_compile same),
      funext (Automaton.accepts_withFlags (wellFormed_of_compile compiled) _)]
  simp only [respondWith, same, read, answered, answers_map, List.all_map, Function.id_comp]
  rfl

end Request

/-- Texts of one line each get the same response as arguments and as lines of the input, with any
options. If the pattern compiles, each of them is answered by a line that says whether the automaton
accepts it; otherwise the message about the pattern is the whole response, whatever the texts and
the input. -/
theorem respond_texts_eq_respond_lines {read : List String → Invocation} (reads : ReadsValues read)
    (display : Display) {options : List String} (nodup : options.Nodup)
    (known : ∀ name ∈ options, name = "--dot" ∨ name = "--debug") (pattern : String)
    {texts : List String} (ne : texts ≠ [])
    (single : ∀ text ∈ texts, '\n' ∉ text.toList ∧ text.toList.getLast? ≠ some '\r')
    (input : List UInt8) :
    let respond (arguments : List String) := (read arguments).respondWith display
    let response := respond (options ++ "--" :: pattern :: texts) input
    response = respond (options ++ ["--", pattern])
      (String.join (texts.map (· ++ "\n"))).toUTF8.toList ∧
    match compile pattern .none with
    | .ok automaton =>
      response = ⟨if texts.all automaton.accepts then 0 else 1,
        (if "--dot" ∈ options then automaton.dotWith display.visible ++ "\n" else "")
          ++ String.join (texts.map fun text =>
            if automaton.accepts text then "true\n" else "false\n"), ""⟩
    | .error error =>
      let wording : String × String := match error.cause with
        | .unmatchedParenthesis => ("001", "unmatched parenthesis")
        | .trailingInput => ("002", "unexpected trailing input")
        | .danglingEscape => ("003", "dangling escape at end of pattern")
      let painted (style text : String) : String := match display.colouring with
        | .plain => text
        | .ansi => "\x1b[" ++ style ++ "m" ++ text ++ "\x1b[0m"
      ∀ (others : List String) (input : List UInt8),
        respond (options ++ "--" :: pattern :: others) input = ⟨2, "",
          painted "1;31" ("[" ++ wording.1 ++ "]") ++ " " ++ wording.2 ++ " at position "
            ++ toString error.position ++ ":\n | " ++ pattern ++ "\n | "
            ++ String.ofList (List.replicate error.position ' ') ++ painted "32" "^" ++ "\n"⟩ := by
  intro respond response
  have asked (others : List String) (input : List UInt8) :
      respond (options ++ "--" :: pattern :: others) input =
        (Request.ofOptions options pattern others).respondWith display input := by
    simp only [respond, reads options pattern others nodup known, Invocation.respondWith]
  cases compiled : compile pattern .none with
  | error error =>
    have refused (others : List String) (input : List UInt8) :
        respond (options ++ "--" :: pattern :: others) input =
          ⟨2, "", error.message display.colouring ++ "\n"⟩ :=
      (asked others input).trans
        ((Request.ofOptions options pattern others).respondWith_of_refused display compiled input)
    have message := PatternError.message_eq error display.colouring
    rw [(fault?_of_compile compiled).2] at message
    refine ⟨(refused texts _).trans (refused [] _).symm, fun others input => ?_⟩
    exact (refused others input).trans
      (congrArg (fun text => Response.mk 2 "" (text ++ "\n")) message)
  | ok automaton =>
    -- All that the answers depend on is what texts are read, be it from the input or not.
    have answered {others : List String} {input : List UInt8}
        (read : (Request.ofOptions options pattern others).inputTexts input = ⟨texts, true⟩) :
        respond (options ++ "--" :: pattern :: others) input =
          ⟨if texts.all automaton.accepts then 0 else 1,
            (if "--dot" ∈ options then automaton.dotWith display.visible ++ "\n" else "")
              ++ String.join (texts.map fun text =>
                if automaton.accepts text then "true\n" else "false\n"), ""⟩ := by
      have answer :=
        (Request.ofOptions options pattern others).respondWith_of_compiled display compiled read
      rw [asked, answer]
      simp [Request.ofOptions]
    have given : (Request.ofOptions options pattern texts).inputTexts input = ⟨texts, true⟩ :=
      if_neg (by simpa [Request.ofOptions] using ne)
    have read : (Request.ofOptions options pattern []).inputTexts _ = ⟨texts, true⟩ :=
      Text.decodeLines_join single
    exact ⟨(answered given).trans (answered read).symm, answered given⟩

/-- Texts beyond ASCII, without any character, and with a carriage return that is not the last. -/
theorem respond_texts_eq_respond_lines_of_letters :
    ∃ automaton, compile "(a|é)*" .none = .ok automaton ∧
      let respond (arguments : List String) :=
        (Invocation.ofArguments arguments).respondWith .plain
      let texts := ["aé", "", "b\rc"]
      let response := respond ["--debug", "--dot", "--", "(a|é)*", "aé", "", "b\rc"] [0xff]
      response = respond ["--debug", "--dot", "--", "(a|é)*"] "aé\n\nb\rc\n".toUTF8.toList ∧
      response = ⟨if texts.all automaton.accepts then 0 else 1,
        automaton.dot ++ "\n" ++ String.join (texts.map fun text =>
          if automaton.accepts text then "true\n" else "false\n"), ""⟩ := by
  obtain ⟨automaton, compiled⟩ :=
    exists_compile (by decide : Brackets.fault? "(a|é)*".toList = none) .none
  have same := @respond_texts_eq_respond_lines _ Invocation.readsValues_ofArguments .plain
    ["--debug", "--dot"] (by decide) (by decide) "(a|é)*" ["aé", "", "b\rc"] (by decide)
    (by decide) [0xff]
  rw [compiled] at same
  exact ⟨automaton, compiled, same⟩

end RegularPattern.Command
