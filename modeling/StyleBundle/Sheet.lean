import StyleBundle.Disk.Reading
import StyleBundle.Log
import StyleBundle.Project

/-!
# Stylesheets of a bundle

A stylesheet as the bundle sees it: its place, its text (the source at first, the compiled text
afterwards), and what processing it has brought to light.
-/

namespace StyleBundle

/-- A stylesheet of a bundle. -/
structure Sheet where
  /-- The tidy path of the source. -/
  path : String
  /-- The path of the module inside the bundle. -/
  bundlePath : String
  /-- The source before compiling and the compiled text afterwards; nothing until it is loaded. -/
  contents : Option String
  /-- The source map of the compiled text. -/
  sourceMap : Option String
  /-- The diagnostics of all passes so far. -/
  errors : List String
  /-- The dependencies on their way to the cache; empty at all other times. -/
  dependencies : List String
  /-- The dependencies of the last compile. -/
  styleDependencies : Option (List String)
  /-- The runtime modules that the bundle has to hold. -/
  runtimeModules : List String
  /-- Whether the cache has been consulted. -/
  consulted : Bool
  /-- Whether the text was restored from the cache. -/
  cached : Bool
  deriving DecidableEq, Repr

namespace Sheet

/-- A stylesheet that nothing has been done with. -/
def fresh (path bundlePath : String) : Sheet where
  path := path
  bundlePath := bundlePath
  contents := none
  sourceMap := none
  errors := []
  dependencies := []
  styleDependencies := none
  runtimeModules := []
  consulted := false
  cached := false

/-- The directory of the source. -/
def directory (s : Sheet) : String := Path.parent s.path

/-- The stylesheet of a project that stands at a path below the project's sources. -/
def inProject (d : Disk) (p : Project) (path : String) : Except Failure Sheet :=
  match d.resolve path, d.resolve p.home with
  | .error fault, _ | _, .error fault => .error (.disk fault)
  | .ok path, .ok home =>
    match Path.below? home path with
    | none => .error (.outside path home)
    | some names => .ok (fresh path (Path.assemble "" names))

/-- The stylesheet with a runtime module noted, once. -/
def needRuntime (s : Sheet) (name : String) : Sheet :=
  if name ∈ s.runtimeModules then s else { s with runtimeModules := s.runtimeModules ++ [name] }

/-- The stylesheet with a diagnostic added. -/
def addError (s : Sheet) (message : String) : Sheet :=
  { s with errors := s.errors ++ [message] }

/-- The part of the program that logs loads. -/
def logSource : String := "sassplugin.model.files"

/-- The record of a source that is gone. -/
def vanishedRecord (path : String) : LogRecord :=
  ⟨.debug, logSource, s!"Stylesheet '{path}' vanished before it could be loaded"⟩

variable [Limits]

/-- The stylesheet with its text loaded, unless it is already, and what that logs. A source that is
gone loads as empty text. -/
def load (d : Disk) (s : Sheet) : Except Failure (Sheet × List LogRecord) :=
  if s.contents.isSome then .ok (s, [])
  else
    match d.readText s.path with
    | .ok text => .ok ({ s with contents := some text }, [])
    | .error (.disk (.refused .missing _)) =>
      .ok ({ s with contents := some "" }, [vanishedRecord s.path])
    | .error failure => .error failure

end Sheet

end StyleBundle
