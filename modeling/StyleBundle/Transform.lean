import StyleBundle.Cache.Store
import StyleBundle.Dependency.Walk
import StyleBundle.Session

/-!
# The transform

The transform takes a stylesheet through a pass: look into the cache, load the source, extract the
dependencies, compile, and apply the report. Compiling is the one point at which a pass waits; what
comes before is `prepare` and `submit`, what comes behind is `settle`. A text that does not compile
is no failure of the pass: the stylesheet is emptied and gets one diagnostic.
-/

namespace StyleBundle

/-- The transform with the user's settings. -/
structure Plugin where
  /-- The user's settings. -/
  settings : Settings
  /-- The plugin's own compiler, if it does not use the shared one. -/
  compiler : Option Compiler

namespace Plugin

/-- The extensions that the transform takes. -/
def extensions : List String := [Import.bracedExtension, Import.indentedExtension]

/-- The project with the transform's extensions taken as sources. -/
def register (p : Project) : Project := extensions.foldl Project.allow p

end Plugin

namespace Transform

/-- The tag under which the transform's entries are cached. -/
def tag : String := "sass"

/-- The runtime module that compiled stylesheets need. -/
def runtimeModule : String := "fuse-box-css"

/-- The part of the program that logs passes. -/
def logSource : String := "sassplugin.compiler.plugin"

/-- The record of a text taken from the cache. -/
def hitRecord (path : String) : LogRecord :=
  ⟨.debug, logSource, s!"Using cached CSS for '{path}'"⟩

/-- The record of a text that does not compile. -/
def failedRecord (path message : String) : LogRecord :=
  ⟨.warning, logSource, s!"Failed to compile '{path}': {message}"⟩

/-- What a pass changes. -/
structure Pass where
  /-- The session. -/
  session : Session
  /-- The plugin's own compiler. -/
  own : Option Compiler
  /-- The stylesheet. -/
  sheet : Sheet
  /-- What has been logged. -/
  records : List LogRecord

/-- A part of a pass. What it has changed stays changed when it fails. -/
abbrev Part (α : Type) := ExceptT Failure (StateM Pass) α

/-- A result as a part of a pass. -/
def ofResult {α : Type} (result : Except Failure α) : Part α := ExceptT.mk (pure result)

/-- Logs some records. -/
def log (records : List LogRecord) : Part Unit :=
  modify fun pass => { pass with records := pass.records ++ records }

/-- Changes the stylesheet. -/
def changeSheet (f : Sheet → Sheet) : Part Unit :=
  modify fun pass => { pass with sheet := f pass.sheet }

variable [Limits] [Cache.Entry.Reader]

/-- Looks into the cache and restores the stylesheet if its entry may be used. -/
def consult (p : Project) : Part Bool := do
  let pass ← get
  let (hit, sheet, records) ← ofResult (Cache.restore pass.session.disk p pass.sheet tag)
  changeSheet fun _ => sheet
  log records
  return hit

/-- Loads the source. -/
def load : Part Unit := do
  let pass ← get
  let (sheet, records) ← ofResult (pass.sheet.load pass.session.disk)
  changeSheet fun _ => sheet
  log records

/-- Makes sure that there is a compiler. -/
def requireCompiler : Part Unit := do
  let pass ← get
  if pass.own.isNone then
    let shared ← ofResult pass.session.sharedCompiler
    modify fun pass => { pass with session := { pass.session with compiler := some shared } }

/-- The resources of the settings. -/
def resources (settings : Settings) : Part (Option String) := do
  if settings.resources.isEmpty then return none
  let pass ← get
  let (result, session) := pass.session.loadResources settings.resources
  set { pass with session }
  ofResult result

/-- The search for the dependencies of a request. -/
def searchOf (r : Request) : Dependency.Search where
  paths := r.includePaths
  partials := true
  hook := r.hook
  extensions := ["css", if r.indentedSyntax then "sass" else "scss"]

/-- Extracts the dependencies of the stylesheet. -/
def extractDependencies (r : Request) : Part Unit := do
  let pass ← get
  let found ← ofResult (Dependency.dependencies pass.session.disk (searchOf r)
    pass.sheet.path (pass.sheet.contents.getD ""))
  changeSheet fun sheet => { sheet with styleDependencies := some found }

/-- Whether a pass uses the cache: the settings and the project both have to. -/
def usesCache (settings : Settings) (p : Project) : Bool := settings.cache && p.usesCache

/-- Whether the stylesheet is restored from the cache, where that is used. -/
def lookUp (settings : Settings) (p : Project) : Part Bool :=
  if usesCache settings p then consult p else pure false

/-- Loads the source and makes the request for it, with its dependencies extracted, unless the
source is empty. -/
def makeRequest (settings : Settings) (p : Project) : Part (Option Request) := do
  load
  if (← get).sheet.contents.getD "" = "" then return none
  requireCompiler
  let resources ← resources settings
  let macros := Request.projectMacros p settings.macros
  let request := Request.build p (← get).sheet settings macros resources
  extractDependencies request
  return some request

/-- The part of a pass before the compile. There is no request if the text comes from the cache or
the source is empty. -/
def prepare (settings : Settings) (p : Project) : Part (Option Request) := do
  changeSheet (·.needRuntime runtimeModule)
  let hit ← lookUp settings p
  changeSheet fun sheet => { sheet with consulted := true }
  if hit then
    log [hitRecord (← get).sheet.path]
    return none
  makeRequest settings p

/-- Hands a request to the plugin's own compiler or to the shared one. -/
def submit (r : Request) : Part Report := do
  let pass ← get
  match pass.own with
  | some own =>
    let rendering := own.render pass.session.disk r
    set { pass with own := some rendering.compiler }
    log rendering.records
    ofResult rendering.report
  | none =>
    let shared ← ofResult pass.session.sharedCompiler
    let rendering := shared.render pass.session.disk r
    set { pass with session := { pass.session with compiler := some rendering.compiler } }
    log rendering.records
    ofResult rendering.report

/-- A diagnosis as the stylesheet records it. A diagnosis of the inline text is of the source, and
any other file is named from the root. -/
def diagnostic (d : Disk) (path : String) (diagnosis : Diagnosis) : String :=
  let file := if diagnosis.file = inlineSource then path else d.absolute diagnosis.file
  s!"{diagnosis.message}\n      at {file}:{diagnosis.line}:{diagnosis.column}"

/-- Empties the stylesheet and records a diagnosis. -/
def applyDiagnosis (diagnosis : Diagnosis) : Part Unit := do
  let pass ← get
  let path := pass.sheet.path
  changeSheet fun sheet =>
    { sheet with contents := some "" }.addError (diagnostic pass.session.disk path diagnosis)
  log [failedRecord path diagnosis.message]

/-- Stores the compiled text with its dependencies, which the stylesheet carries for that time
only. A store that fails hands on the disk as it was: all that it may leave behind are directories
of the cache. -/
def store (directory : String) (output : Output) : Part Unit := do
  let pass ← get
  let sheet := { pass.sheet with dependencies := pass.sheet.styleDependencies.getD [] }
  let written :=
    Cache.writeEntry pass.session.disk directory (Cache.entryOf sheet output.map tag)
  changeSheet fun sheet => { sheet with dependencies := [] }
  let disk ← ofResult written
  modify fun pass => { pass with session := { pass.session with disk } }

/-- The part of a pass behind the compile. -/
def settle (settings : Settings) (p : Project) (report : Report) : Part Unit := do
  match report.diagnosis, report.output with
  | some diagnosis, _ => applyDiagnosis diagnosis
  | none, none => throw .noOutcome
  | none, some output =>
    changeSheet fun sheet =>
      { sheet with sourceMap := output.map, contents := some output.css }
    match usesCache settings p, p.cache with
    | true, some directory => store directory output
    | _, _ => pure ()

/-- A whole pass. -/
def transform (settings : Settings) (p : Project) : Part Unit := do
  match ← prepare settings p with
  | none => pure ()
  | some request => settle settings p (← submit request)

/-- Runs a part of a pass. -/
def Part.run {α : Type} (part : Part α) (pass : Pass) : Except Failure α × Pass :=
  StateT.run (ExceptT.run part) pass

end Transform

end StyleBundle
