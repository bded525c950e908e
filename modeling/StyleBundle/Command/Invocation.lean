import StyleBundle.Command.Grammar

/-!
# The commands

The program has three commands: one compiles a stylesheet, one prints it with all imports inlined,
one lists the files that it depends on. This module says what they take and how they are explained.
-/

namespace StyleBundle.Command

/-- The name of the program. -/
def programName : String := "sassplugin"

/-- What the program is asked to do with a stylesheet. -/
inductive Task
  /-- Compile it, to a file or to the output. -/
  | compile (config out cacheDirectory : Option String)
  /-- Print it with its imports inlined. -/
  | inline
  /-- List its dependencies, which are also searched for in some directories. -/
  | dependencies (includePaths : List String)
  deriving DecidableEq, Repr

/-- What the program is asked to do. -/
structure Invocation where
  /-- Whether all log records are shown. -/
  verbose : Bool
  /-- The task and its stylesheet, if one is given. -/
  task : Option (Task × String)
  deriving DecidableEq, Repr

/-- The switch for all log records. -/
def verboseSwitch : Switch := ⟨["--verbose"], false⟩

/-- The switch for a settings file. -/
def configSwitch : Switch := ⟨["-c", "--config"], true⟩

/-- The switch for an output file. -/
def outSwitch : Switch := ⟨["-o", "--out"], true⟩

/-- The switch for a cache. -/
def cacheSwitch : Switch := ⟨["--cache-dir"], true⟩

/-- The switch for a directory that is searched. -/
def includeSwitch : Switch := ⟨["-I", "--include-path"], true⟩

/-- What the program takes. -/
def programGrammar : Grammar where
  name := programName
  usage := "usage: sassplugin [-h] [--verbose] COMMAND ...\n"
  details := "sassplugin - SCSS/Sass transform for module bundlers

positional arguments:
  COMMAND
    compile   Compile a stylesheet to CSS
    inline    Print a stylesheet with all imports inlined
    deps      List the files a stylesheet depends on

options:
  -h, --help  show this help message and exit
  --verbose   Enable debug logging
"
  switches := [.help, verboseSwitch]
  takesAll := true

/-- What the command that compiles takes. -/
def compileGrammar : Grammar where
  name := "sassplugin compile"
  usage := "usage: sassplugin compile [-h] [-c CONFIG] [-o OUT] [--cache-dir CACHE_DIR]
                          file
"
  details := "Compile one stylesheet through the full transform pipeline.

positional arguments:
  file                  Stylesheet to compile

options:
  -h, --help            show this help message and exit
  -c CONFIG, --config CONFIG
                        Plugin configuration file (default: .sassplugin.yaml
                        in the current directory, if present)
  -o OUT, --out OUT     Write CSS to this file instead of stdout
  --cache-dir CACHE_DIR
                        Enable the static cache in this directory
"
  switches := [.help, configSwitch, outSwitch, cacheSwitch]
  takesAll := false

/-- What the command that inlines takes. -/
def inlineGrammar : Grammar where
  name := "sassplugin inline"
  usage := "usage: sassplugin inline [-h] file\n"
  details := "Textually inline the @import graph of a stylesheet.

positional arguments:
  file        Stylesheet to inline

options:
  -h, --help  show this help message and exit
"
  switches := [.help]
  takesAll := false

/-- What the command that lists dependencies takes. -/
def dependenciesGrammar : Grammar where
  name := "sassplugin deps"
  usage := "usage: sassplugin deps [-h] [-I INCLUDE_PATHS] file\n"
  details := "Print the dependency record of a stylesheet, one path per line.

positional arguments:
  file                  Stylesheet to analyse

options:
  -h, --help            show this help message and exit
  -I INCLUDE_PATHS, --include-path INCLUDE_PATHS
                        Additional directory searched for imports (repeatable)
"
  switches := [.help, includeSwitch]
  takesAll := false

/-- A command by name: what it takes, and the task that its arguments make. -/
structure Entry where
  /-- The name. -/
  name : String
  /-- What it takes. -/
  grammar : Grammar
  /-- The task that its arguments make. -/
  task : Parsed → Task

/-- The commands. -/
def entries : List Entry :=
  [⟨"compile", compileGrammar, fun p =>
      .compile (p.value? configSwitch) (p.value? outSwitch) (p.value? cacheSwitch)⟩,
    ⟨"inline", inlineGrammar, fun _ => .inline⟩,
    ⟨"deps", dependenciesGrammar, fun p => .dependencies (p.values includeSwitch)⟩]

/-- What the program calls its commands when a word names none. -/
def invalidChoice (word : String) : String :=
  let names := ", ".intercalate (entries.map fun e => Text.quoted e.name)
  s!"argument COMMAND: invalid choice: {Text.quoted word} (choose from {names})"

/-- What the program is asked to do by a row of arguments. -/
def Invocation.parse (arguments : List String) : Except Stop Invocation := do
  let outer ← programGrammar.parse arguments
  let verbose := outer.has verboseSwitch
  let (task, leftOver) ←
    match outer.operand with
    | none | some [] => pure (none, outer.leftOver)
    | some (word :: rest) =>
      match entries.find? (·.name = word) with
      | none => programGrammar.misuse (invalidChoice word)
      | some entry => do
        let inner ← entry.grammar.parse rest
        match inner.operand with
        | some (file :: _) =>
          pure (some (entry.task inner, file), outer.leftOver ++ inner.leftOver)
        | _ => entry.grammar.misuse "the following arguments are required: file"
  if leftOver.isEmpty then return ⟨verbose, task⟩
  else programGrammar.misuse ("unrecognized arguments: " ++ " ".intercalate leftOver)

end StyleBundle.Command
