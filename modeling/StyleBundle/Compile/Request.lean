import StyleBundle.Project
import StyleBundle.Settings.Basic
import StyleBundle.Sheet

/-!
# Compile requests

A request holds everything that a compiler needs for one stylesheet. It starts from the
compiler's defaults, takes the overrides of the settings, and computes search paths, macros and
the import hook anew.
-/

namespace StyleBundle

/-- Everything that a compiler needs for one stylesheet. -/
structure Request where
  /-- The text to compile. -/
  data : String
  /-- The name of the text in diagnostics. -/
  file : String
  /-- Whether a source map is made. -/
  sourceMap : Bool
  /-- The name of the output in the source map. -/
  outFile : Option String
  /-- Whether the source map holds the sources. -/
  sourceMapContents : Bool
  /-- The directories searched for imports, in order. -/
  includePaths : List String
  /-- The macros of this compile. -/
  macros : Import.Macros
  /-- The import hook. -/
  hook : Option Import.Hook
  /-- Whether the text is in the indented dialect. -/
  indentedSyntax : Bool
  /-- Functions that the text may call, by signature. -/
  functions : Table String String
  /-- The word for the output style. -/
  outputStyle : String
  /-- The number of digits behind the decimal point. -/
  precision : Option Int

namespace Request

/-- A request with the compiler's defaults. -/
def default (data file : String) : Request where
  data := data
  file := file
  sourceMap := true
  outFile := none
  sourceMapContents := true
  includePaths := []
  macros := []
  hook := none
  indentedSyntax := false
  functions := []
  outputStyle := OutputStyle.nested.name
  precision := none

/-- The request with one default overridden. -/
def override (r : Request) : Settings.Override → Request
  | .data text => { r with data := text }
  | .file name => { r with file := name }
  | .sourceMap wanted => { r with sourceMap := wanted }
  | .sourceMapContents wanted => { r with sourceMapContents := wanted }
  | .outFile name => { r with outFile := some name }
  | .outputStyle style => { r with outputStyle := style.name }
  | .precision digits => { r with precision := some digits }

/-- The macro for the directory of the sources. -/
def homeMacro : String := "$homeDir"

/-- The macro for the directory of the application. -/
def appRootMacro : String := "$appRoot"

/-- The macro for the installed packages. -/
def packagesMacro : String := "~"

/-- The macros of a project: three that are built in, and those of the user on top. A user's macro
may replace a built-in one, which keeps its place. -/
def projectMacros (p : Project) (user : Import.Macros) : Import.Macros :=
  Table.update
    [(homeMacro, p.home), (appRootMacro, p.appRoot), (packagesMacro, p.packages ++ "/")] user

variable [Limits]

/-- The hook that the settings ask for. -/
def hookOf (p : Project) (settings : Settings) (macros : Import.Macros) : Option Import.Hook :=
  match settings.importing with
  | .off => none
  | .macros => some (Import.macroHook macros p.overrides)
  | .custom hook => some hook

/-- The request for a stylesheet of a project. The resources stand before its text. -/
def build (p : Project) (sheet : Sheet) (settings : Settings) (macros : Import.Macros)
    (resources : Option String) : Request :=
  let base :=
    { default (resources.getD "" ++ sheet.contents.getD "") (p.home ++ "/" ++ sheet.bundlePath) with
      outFile := some sheet.bundlePath }
  { settings.overrides.foldl override base with
    includePaths := settings.includePaths ++ [sheet.directory]
    macros
    indentedSyntax := settings.indentedSyntax
    functions := settings.functions
    hook := hookOf p settings macros }

end Request

end StyleBundle
