import Idl.Target.Basic

/-!
# Command lines

`generate -i PATH -o PATH -l TARGET` writes source text for a schema, and `ast -i PATH` prints a
schema as JSON. Options may also be spelled out (`--input`, `--output`, `--lang`). A value follows
its option or is attached to it, and short options may share one dash.

* `Command`: what a command line asks for.
* `Command.ofArgs`: reads a command line from left to right. The first mistake or the first call for
  help ends the reading.
-/

namespace Idl

/-- What a command line asks for. -/
inductive Command where
  /-- Write source text for a schema. -/
  | generate (input output : String) (target : Target)
  /-- Print a schema. -/
  | ast (input : String)
  deriving DecidableEq

/-- What can be asked for. -/
inductive Verb where
  | generate
  | ast
  deriving DecidableEq

/-- Why a command line names no command. -/
inductive NoCommand where
  /-- It asks for help, about one verb or about all. -/
  | help (topic : Option Verb)
  /-- It breaks a rule. -/
  | misuse
  deriving DecidableEq

/-- An option with a value. -/
inductive Setting where
  | input
  | output
  | target
  deriving DecidableEq

namespace Setting

/-- Every option with a value. -/
def all : List Setting := [input, output, target]

/-- The short spelling. -/
def letter : Setting → Char
  | input => 'i'
  | output => 'o'
  | target => 'l'

/-- The long spelling. -/
def word : Setting → String
  | input => "input"
  | output => "output"
  | target => "lang"

end Setting

/-- The options of a verb. -/
def Verb.options : Verb → List Setting
  | .generate => Setting.all
  | .ast => [.input]

/-- The word for a verb. -/
def Verb.word : Verb → String
  | .generate => "generate"
  | .ast => "ast"

/-- The verb of a word. -/
def Verb.ofWord? (word : String) : Option Verb :=
  [Verb.generate, Verb.ast].find? fun v => v.word = word

namespace Command

/-! ## Reading options -/

/-- Where options are read: the options that may stand there, and what help is about. -/
structure Level where
  options : List Setting
  topic : Option Verb

/-- The options read so far. -/
structure Settings where
  verbose : Bool
  input : Option String
  output : Option String
  target : Option Target

/-- Nothing read. -/
def Settings.start : Settings := ⟨false, none, none, none⟩

/-- Asks for a log. It may be asked for once. -/
def Settings.setVerbose (st : Settings) : Except NoCommand Settings :=
  if st.verbose then .error .misuse else .ok { st with verbose := true }

/-- Gives an option its value. Each has one, a path is not empty, and a target is known. -/
def Settings.set (st : Settings) (o : Setting) (value : String) : Except NoCommand Settings :=
  match o with
  | .input =>
    if st.input.isSome ∨ value.isEmpty then .error .misuse else .ok { st with input := value }
  | .output =>
    if st.output.isSome ∨ value.isEmpty then .error .misuse else .ok { st with output := value }
  | .target =>
    match Target.ofIdentifier? value with
    | some t => if st.target.isSome then .error .misuse else .ok { st with target := some t }
    | none => .error .misuse

/-- The text looks like options. A dash alone is a value. -/
def isOption (arg : String) : Bool :=
  arg.toList.head? == some '-' && arg != "-"

/-- Takes one equals sign off the front. -/
def dropEquals : List Char → List Char
  | '=' :: cs => cs
  | cs => cs

/-- Reads the letters behind one dash. The last one may be an option that still needs its value. -/
def readLetters (level : Level) (st : Settings) :
    List Char → Except NoCommand (Settings × Option Setting)
  | [] => .ok (st, none)
  | c :: cs =>
    if c = 'h' then .error (.help level.topic)
    else if c = 'v' then do readLetters level (← st.setVerbose) cs
    else
      match level.options.find? fun o => o.letter = c with
      | none => .error .misuse
      | some o =>
        if cs.isEmpty then .ok (st, some o)
        else do return (← st.set o (String.ofList (dropEquals cs)), none)

/-- Splits the text behind two dashes at the first equals sign. -/
def splitWord (cs : List Char) : String × Option String :=
  let value := cs.dropWhile (· != '=')
  (String.ofList (cs.takeWhile (· != '=')),
    if value.isEmpty then none else some (String.ofList value.tail))

/-- Reads an option behind two dashes. It may still need its value. -/
def readWord (level : Level) (st : Settings) (cs : List Char) :
    Except NoCommand (Settings × Option Setting) :=
  let (word, value?) := splitWord cs
  if word = "help" then .error (if value?.isSome then .misuse else .help level.topic)
  else if word = "verbose" then
    if value?.isSome then .error .misuse else do return (← st.setVerbose, none)
  else
    match level.options.find? fun o => o.word = word, value? with
    | none, _ => .error .misuse
    | some o, none => .ok (st, some o)
    | some o, some value => do return (← st.set o value, none)

/-- Reads one argument of options. -/
def readOption (level : Level) (st : Settings) (arg : String) :
    Except NoCommand (Settings × Option Setting) :=
  match arg.toList with
  | '-' :: '-' :: cs => readWord level st cs
  | '-' :: cs => readLetters level st cs
  | _ => .error .misuse

/-- Reads the options of a verb. Nothing else may follow, except a closing pair of dashes. -/
def readOptions (level : Level) (st : Settings) : List String → Except NoCommand Settings
  | [] => .ok st
  | arg :: args =>
    if arg = "--" then if args.isEmpty then .ok st else .error .misuse
    else if isOption arg then
      match readOption level st arg with
      | .error e => .error e
      | .ok (st, none) => readOptions level st args
      | .ok (st, some o) =>
        match args with
        | [] => .error .misuse
        | value :: args =>
          if isOption value then .error .misuse
          else match st.set o value with
            | .error e => .error e
            | .ok st => readOptions level st args
    else .error .misuse

/-! ## Reading commands -/

/-- The command of a verb, which needs all its options. -/
def ofSettings (verb : Verb) (st : Settings) : Except NoCommand Command :=
  match verb, st.input, st.output, st.target with
  | .generate, some input, some output, some target => .ok (.generate input output target)
  | .ast, some input, _, _ => .ok (.ast input)
  | _, _, _, _ => .error .misuse

/-- What help is asked for in words. -/
def helpTopic (args : List String) : NoCommand :=
  match args with
  | [] => .help none
  | [word] =>
    match Verb.ofWord? word with
    | some v => .help (some v)
    | none => if word = "help" then .help none else .misuse
  | _ => .misuse

/-- Reads a command line. -/
def readArgs (st : Settings) : List String → Except NoCommand Command
  | [] => .error .misuse
  | arg :: args =>
    match Verb.ofWord? arg with
    | some verb => do
      ofSettings verb (← readOptions ⟨verb.options, some verb⟩ .start args)
    | none =>
      if arg = "help" then .error (helpTopic args)
      else if arg ≠ "--" ∧ isOption arg then
        match readOption ⟨[], none⟩ st arg with
        | .error e => .error e
        | .ok (st, _) => readArgs st args
      else .error .misuse

/-- The command that a command line asks for. -/
def ofArgs (args : List String) : Except NoCommand Command :=
  readArgs .start args

/-! ## Help -/

/-- The help for a topic, line by line. -/
def helpLines : Option Verb → List String
  | none =>
    ["Generate Rust, Go, C#, Dart or TypeScript from IDL schemas",
     "",
     "Usage: bidl [OPTIONS] <COMMAND>",
     "",
     "Commands:",
     "  generate  Generate source code for one target language",
     "  ast       Print the verified schema AST as JSON",
     "  help      Print this message or the help of the given subcommand(s)",
     "",
     "Options:",
     "  -v, --verbose  Log every pipeline step",
     "  -h, --help     Print help"]
  | some .generate =>
    ["Generate source code for one target language",
     "",
     "Usage: bidl generate [OPTIONS] --input <INPUT> --output <OUTPUT> --lang <LANG>",
     "",
     "Options:",
     "  -i, --input <INPUT>    Input `.idl` schema file",
     "  -v, --verbose          Log every pipeline step",
     "  -o, --output <OUTPUT>  Output source file, replaced if it exists",
     "  -l, --lang <LANG>      Target language: rust, go, csharp, dart or ts",
     "  -h, --help             Print help"]
  | some .ast =>
    ["Print the verified schema AST as JSON",
     "",
     "Usage: bidl ast [OPTIONS] --input <INPUT>",
     "",
     "Options:",
     "  -i, --input <INPUT>  Input `.idl` schema file",
     "  -v, --verbose        Log every pipeline step",
     "  -h, --help           Print help"]

/-- The help for a topic. -/
def helpText (topic : Option Verb) : String :=
  "\n".intercalate (helpLines topic) ++ "\n"

end Command

end Idl
