import RegularPattern.Command.Invocation

/-!
# Arguments of the command line

Arguments are read from left to right. Options may stand anywhere before the first `--`; after it
everything is a value. The first value is the pattern, all others are texts. The first argument
that asks for help or for the version, or that cannot be understood, decides at once.

A long option is written out in full after two hyphens. Letters after one hyphen are short options,
one by one. There are two of them, help and version, and each decides at once, so what follows the
first letter is never looked at.

## Main definitions

* `Command.Argument` — what a single argument before `--` can be.
* `Command.Invocation.ofArguments` — the invocation that arguments write.
-/

namespace RegularPattern.Command

/-- What an argument before `--` can be, that one included. -/
inductive Argument where
  /-- From here on, everything is a value. -/
  | separator
  | help
  | version
  | dot
  | debug
  | unknown
  | value
  deriving DecidableEq

namespace Argument

/-- The long option of a given name. -/
def ofName (name : List Char) : Argument :=
  if name = "help".toList then help
  else if name = "version".toList then version
  else if name = "dot".toList then dot
  else if name = "debug".toList then debug
  else unknown

/-- The short option of a given letter. -/
def ofLetter : Char → Argument
  | 'h' => help
  | 'V' => version
  | _ => unknown

/-- What a text is as an argument. A hyphen alone is a value. -/
def ofText (text : String) : Argument :=
  match text.toList with
  | ['-', '-'] => separator
  | '-' :: '-' :: name => ofName name
  | '-' :: letter :: _ => ofLetter letter
  | _ => value

/-- What follows the first of several short options does not matter. -/
theorem ofText_cluster {letter : Char} (ne : letter ≠ '-') (others : List Char) :
    ofText (String.ofList ('-' :: letter :: others)) = ofLetter letter := by
  unfold ofText
  rw [String.toList_ofList]
  split <;> simp_all

end Argument

/-- The options that were given so far. -/
structure Options where
  dot : Bool := false
  debug : Bool := false
  deriving DecidableEq

def helpText : String :=
  "Decides whether each TEXT is entirely matched by PATTERN\n"
    ++ "\n"
    ++ "Usage: thompson_re [OPTIONS] <PATTERN> [TEXTS]...\n"
    ++ "\n"
    ++ "Arguments:\n"
    ++ "  <PATTERN>   Pattern to compile\n"
    ++ "  [TEXTS]...  Texts to match. Lines of stdin are matched when none are given\n"
    ++ "\n"
    ++ "Options:\n"
    ++ "      --dot      Print the compiled automaton as Graphviz DOT\n"
    ++ "      --debug    Log the compiled automaton (shown with RUST_LOG=debug)\n"
    ++ "  -h, --help     Print help\n"
    ++ "  -V, --version  Print version\n"

def versionText : String :=
  "thompson_re 0.1.0\n"

namespace Invocation

def help : Invocation :=
  done ⟨0, helpText, ""⟩

def version : Invocation :=
  done ⟨0, versionText, ""⟩

/-- The arguments cannot be understood; what is wrong with them is not told. -/
def misuse : Invocation :=
  done ⟨2, "", "usage"⟩

/-- The invocation of complete arguments: the pattern may not be missing. -/
def ofValues (options : Options) : List String → Invocation
  | [] => misuse
  | pattern :: texts => request ⟨pattern, texts, options.dot, options.debug⟩

/-- Reads the rest of the arguments, after the given options and values. An option that is given
twice is a misuse. -/
def read (options : Options) (values : List String) : List String → Invocation
  | [] => ofValues options values
  | text :: rest =>
    match Argument.ofText text with
    | .separator => ofValues options (values ++ rest)
    | .help => help
    | .version => version
    | .dot => if options.dot then misuse else read { options with dot := true } values rest
    | .debug => if options.debug then misuse else read { options with debug := true } values rest
    | .unknown => misuse
    | .value => read options (values ++ [text]) rest

/-- The invocation that arguments write. -/
def ofArguments (arguments : List String) : Invocation :=
  read {} [] arguments

end Invocation

end RegularPattern.Command
