import ApiSurface.Command.Request
/-!
# The command line

`analyze` takes the folder of the program trees and options by their long names, with the value
after an equals sign or as the next word.  An option may stand once.  After a lone `--` every word
is a path, and after `help` the name of a command.  Options on logging are accepted before and after
`analyze`; the model does not depend on them.
-/

namespace ApiSurface.Command

/-! ## 1. Invocations -/

/-- What a command line asks for. -/
inductive Invocation
  | analyze (request : Request)
  | version
  | help
  /-- A command line that cannot be understood. -/
  | misuse

/-- What the program prints as its version. -/
def versionLine : String := "apigraph 0.1.0"

/-! ## 2. Options -/

/-- The options that take a value, with the values that they accept. -/
def logOptions : List (String × (String → Bool)) := [
  ("log-level", ["trace", "debug", "info", "warn", "error"].contains),
  ("log-format", ["text", "json"].contains)]

def analyzeOptions : List (String × (String → Bool)) := [
  ("package", fun _ => true),
  ("distribution", fun _ => true),
  ("version", fun _ => true),
  ("docstyle", fun v => (DocstringStyle.ofName? v).isSome),
  ("out", fun v => !v.isEmpty),
  ("config", fun v => !v.isEmpty)] ++ logOptions

/-- How a word of the command line is meant. -/
inductive Word
  | escape
  | long (name : String) (value : Option String)
  | short (letter : Char)
  | plain (text : String)

def Word.of (text : String) : Word :=
  match text.toList with
  | ['-', '-'] => .escape
  | '-' :: '-' :: t =>
    match Text.splitAtFirst ['='] t with
    | some (name, value) => .long (String.ofList name) (some (String.ofList value))
    | none => .long (String.ofList t) none
  | '-' :: c :: _ => .short c
  | _ => .plain text

/-! ## 3. Reading -/

/-- Which command is being read. -/
inductive Level
  | top | analyze
  /-- A request for help on a command, if one is named. -/
  | help (command : Option String)
  deriving DecidableEq

/-- What is known after some words. -/
structure Progress where
  level : Level := .top
  /-- Whether every further word is a path. -/
  escaped : Bool := false
  /-- An option that waits for its value. -/
  pending : Option String := none
  /-- The options given to the command. -/
  given : List (String × String) := []
  publicOnly : Bool := false
  trees : Option String := none

namespace Progress

def valueOptions (p : Progress) : List (String × (String → Bool)) :=
  match p.level with
  | .analyze => analyzeOptions
  | _ => logOptions

/-- Gives an option its value. -/
def give (p : Progress) (name value : String) : Except Invocation Progress :=
  match p.valueOptions.lookup name with
  | some accepts =>
    if accepts value && (p.given.lookup name).isNone then
      .ok { p with given := (name, value) :: p.given, pending := none }
    else .error .misuse
  | none => .error .misuse

/-- A word that is neither an option nor a value. -/
def place (p : Progress) (text : String) : Except Invocation Progress :=
  match p.level with
  | .top =>
    if p.escaped then .error .misuse
    else if text == "analyze" then .ok { level := .analyze }
    else if text == "help" then .ok { level := .help none }
    else .error .misuse
  | .help none =>
    if text == "analyze" || text == "help" then .ok { p with level := .help (some text) }
    else .error .misuse
  | .help (some _) => .error .misuse
  | .analyze =>
    if p.trees.isNone && !text.isEmpty then .ok { p with trees := some text } else .error .misuse

def long (p : Progress) (name : String) (value : Option String) : Except Invocation Progress :=
  match value with
  | some v => p.give name v
  | none =>
    if (p.valueOptions.lookup name).isSome then .ok { p with pending := some name }
    else if name == "help" then .error .help
    else if name == "version" && p.level == .top then .error .version
    else if name == "public-only" && p.level == .analyze && !p.publicOnly then
      .ok { p with publicOnly := true }
    else .error .misuse

def short (p : Progress) (letter : Char) : Except Invocation Progress :=
  if letter == 'h' then .error .help
  else if letter == 'V' && p.level == .top then .error .version
  else .error .misuse

/-- Whether every further word is meant as it stands, options having come to an end. -/
def isLiteral (p : Progress) : Bool :=
  p.escaped || match p.level with
    | .help _ => true
    | _ => false

/-- Reads the next word.  An option that waits for a value takes any plain word, and nothing else
may follow it. -/
def step (p : Progress) (text : String) : Except Invocation Progress :=
  if p.isLiteral then p.place text
  else match p.pending, Word.of text with
    | some name, .plain value => p.give name value
    | some _, _ => .error .misuse
    | none, .plain text => p.place text
    | none, .escape => .ok { p with escaped := true }
    | none, .long name value => p.long name value
    | none, .short letter => p.short letter

/-- What the words ask for, now that there are no more. -/
def finish (p : Progress) : Invocation :=
  match p.pending, p.level, p.trees with
  | none, .analyze, some trees =>
    .analyze {
      trees
      config := p.given.lookup "config"
      package := p.given.lookup "package"
      distribution := p.given.lookup "distribution"
      version := p.given.lookup "version"
      style := (p.given.lookup "docstyle").bind DocstringStyle.ofName?
      publicOnly := p.publicOnly
      out := p.given.lookup "out" }
  | _, .help _, _ => .help
  | _, _, _ => .misuse

end Progress

/-- What a command line asks for. -/
def read (words : List String) : Invocation :=
  match words.foldlM Progress.step {} with
  | .ok p => p.finish
  | .error stop => stop

/-! ## 4. Answers -/

/-- What a run leaves behind besides files. -/
structure Report where
  exit : Nat
  stdout : String

/-- A failed run prints its error as one line of JSON. -/
def Report.failure (e : Error) : Report := ⟨e.code, e.toJson.compact ++ "\n"⟩

def usage : String :=
  "Normalized API models of Python packages\n\n" ++
  "Usage: apigraph [OPTIONS] <COMMAND>\n\n" ++
  "Commands:\n" ++
  "  analyze  Build the API document of a package\n" ++
  "  help     Print this message or the help of the given subcommand(s)\n"

end ApiSurface.Command
