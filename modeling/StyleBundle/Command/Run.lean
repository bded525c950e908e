import StyleBundle.Command.Invocation
import StyleBundle.Import.Inline
import StyleBundle.Settings.Load
import StyleBundle.Transform

/-!
# Running commands

A command runs in a session, writes to two texts, the output and the messages, and ends with a
status or with a failure. Faults of the input are reported in a message and the status one; what
a command has written before a failure stays written.
-/

namespace StyleBundle.Command

/-- What a run changes. -/
structure Run where
  /-- The session. -/
  session : Session
  /-- Whether all log records are shown. -/
  verbose : Bool
  /-- The output so far. -/
  output : String
  /-- The messages so far. -/
  messages : String

/-- A part of a run. What it has changed stays changed when it fails. -/
abbrev Work (α : Type) := ExceptT Failure (StateM Run) α

/-- How a command ends. -/
structure Outcome where
  /-- The status, or the failure that nothing has dealt with. -/
  ending : Except Failure Nat
  /-- The output. -/
  output : String
  /-- The messages. -/
  messages : String
  /-- The session afterwards. -/
  session : Session

namespace Work

/-- A result as a part of a run. -/
def ofResult {α : Type} (result : Except Failure α) : Work α := ExceptT.mk (pure result)

/-- Writes to the output. -/
def print (text : String) : Work Unit :=
  modify fun run => { run with output := run.output ++ text }

/-- Writes to the messages. -/
def say (text : String) : Work Unit :=
  modify fun run => { run with messages := run.messages ++ text }

/-- Reports what is wrong with the input. -/
def complain (message : String) : Work Unit := say s!"Error: {message}\n"

/-- Shows log records: all of them if that is asked for, and else the important ones. -/
def log (records : List LogRecord) : Work Unit := do
  let verbose := (← get).verbose
  let shown := records.filter fun r => verbose || r.level.isShown
  say (String.join (shown.map fun r => r.line ++ "\n"))

/-- The disk of the session. -/
def disk : Work Disk := return (← get).session.disk

/-- Changes the disk of the session. -/
def changeDisk (change : Disk → Except Disk.Fault Disk) : Work Unit := do
  let disk ← ofResult ((change (← disk)).mapError Failure.disk)
  modify fun run => { run with session := { run.session with disk } }

/-- The path as the disk would spell it. -/
def resolve (path : String) : Work String := do
  ofResult (((← disk).resolve path).mapError Failure.disk)

/-- Whether a path leads to a file. -/
def isFile [Limits] (path : String) : Work Bool := do
  let node? ← ofResult (((← disk).probe path).mapError Failure.disk)
  return node?.any Node.isFile

end Work

open Work

/-- The status of a command that has done its work. -/
def done : Nat := 0

/-- The status of a command whose input is at fault. -/
def faulty : Nat := 1

/-- The status of a command whose arguments are mistaken. -/
def mistaken : Nat := 2

/-- Whether a failure is a fault of the files given: one that the disk refuses, or one that holds
no text. -/
def isFileFault : Failure → Bool
  | .disk (.refused ..) | .disk (.notTree _) | .undecodable _ => true
  | _ => false

/-- Whether a failure of a pass is a fault of the files given, those of the cache among them. -/
def isPassFault : Failure → Bool
  | .cache _ => true
  | failure => isFileFault failure

/-- What a source is when there is none. -/
def missingMessage (source : String) : String := s!"file '{source}' does not exist."

variable [Limits] [Cache.Entry.Reader] [Settings.Reader]

/-- The settings file of the working directory, whether it is there or not. -/
def usualFile (d : Disk) : String := Path.child d.homePath Settings.fileName

/-- The file from which settings are loaded: the one that the command line names, or that of the
working directory if it is there. -/
def settingsFile (d : Disk) (config : Option String) : Except Disk.Fault (Option String) :=
  match config with
  | some path => .ok (some (Path.tidy path))
  | none => (d.probe (usualFile d)).map fun node? => node?.map fun _ => usualFile d

/-- The settings in the file that there is for them, or the default ones. -/
def loadSettings (d : Disk) (config : Option String) : Except Failure Settings :=
  match settingsFile d config with
  | .error fault => .error (.disk fault)
  | .ok none => .ok Settings.default
  | .ok (some path) => Settings.load d path

/-- The project of a source: its home is the working directory if the source is below it, and else
the directory of the source. -/
def projectOf (d : Disk) (source : String) (cache : Option String) : Project :=
  let isBelow := (Path.below? d.homePath source).any (!·.isEmpty)
  let home := if isBelow then d.homePath else Path.parent source
  Plugin.register
    { Project.rooted home none none with usesCache := cache.isSome, cache }

/-- Runs a pass over a stylesheet, and gives the stylesheet afterwards. -/
def runPass (settings : Settings) (p : Project) (sheet : Sheet) :
    Work (Except Failure Unit × Sheet) := do
  let pass : Transform.Pass := ⟨(← get).session, none, sheet, []⟩
  let (result, pass) := (Transform.transform settings p).run pass
  modify fun run => { run with session := pass.session }
  log pass.records
  return (result, pass.sheet)

/-- Writes compiled text and its source map, which stands beside it. -/
def writeOut (source out : String) (sheet : Sheet) : Work Unit := do
  let out := Path.tidy out
  changeDisk (·.makeDirectories (Path.parent out))
  changeDisk (·.writeText out (sheet.contents.getD ""))
  let map := sheet.sourceMap.getD ""
  if map ≠ "" then
    changeDisk (·.writeText (Path.child (Path.parent out) (Path.fileName out ++ ".map")) map)
  print s!"Compiled '{source}' -> '{out}'.\n"

/-- The directory of the cache as the disk would spell it, if one is named. -/
def cacheOf (d : Disk) (named : Option String) : Except Failure (Option String) :=
  match named.filter (· ≠ "") with
  | none => .ok none
  | some directory =>
    match d.resolve directory with
    | .ok path => .ok (some path)
    | .error fault => .error (.disk fault)

/-- Compiles a stylesheet of a project and gives out the compiled text, to a file or to the
output. -/
def compileSheet (settings : Settings) (p : Project) (source : String) (out : Option String)
    (sheet : Sheet) : Work Nat := do
  let (result, sheet) ← runPass settings p sheet
  match result with
  | .error failure =>
    if isPassFault failure then
      complain failure.message
      return faulty
    else throw failure
  | .ok () =>
    if !sheet.errors.isEmpty then
      sheet.errors.forM complain
      return faulty
    match out with
    | none => print (sheet.contents.getD "")
    | some out => writeOut source out sheet
    return done

/-- Goes on with the source to which a path leads. There has to be a file. -/
def onSource (file : String) (work : String → Work Nat) : Work Nat := do
  let source ← resolve file
  if ← isFile source then work source
  else
    complain (missingMessage source)
    return faulty

/-- Compiles the stylesheet in a file. -/
def compile (config out cacheDirectory : Option String) (file : String) : Work Nat :=
  onSource file fun source => do
    match loadSettings (← disk) config with
    | .error (.settings fault) =>
      complain fault.message
      return faulty
    | .error failure => throw failure
    | .ok settings =>
      let cache ← ofResult (cacheOf (← disk) cacheDirectory)
      let project := projectOf (← disk) source cache
      let sheet ← ofResult (Sheet.inProject (← disk) project source)
      compileSheet settings project source out sheet

/-- Prints a stylesheet with its imports inlined. -/
def inline (file : String) : Work Nat := do
  let source ← resolve file
  let flattening :=
    Import.flatten (← disk) (Path.parent source) Import.bracedExtension source
  log flattening.records
  match flattening.text with
  | .ok text =>
    print (text ++ "\n")
    return done
  | .error .importCycle =>
    complain s!"circular @import detected while inlining '{file}'."
    return faulty
  | .error failure =>
    if isFileFault failure then
      complain failure.message
      return faulty
    else throw failure

/-- The search for the dependencies that are listed for a source in a directory. -/
def listingSearch (includePaths : List String) (directory source : String) :
    Dependency.Search where
  paths := includePaths ++ [directory]
  partials := true
  hook := none
  extensions := ["css", if Path.suffix source = ".sass" then "sass" else "scss"]

/-- Prints the dependencies of a stylesheet, a path on each line. -/
def listDependencies (includePaths : List String) (file : String) : Work Nat :=
  onSource file fun source => do
    let project := Project.rooted (Path.parent source) none none
    let sheet ← ofResult (Sheet.inProject (← disk) project source)
    match sheet.load (← disk) with
    | .error failure =>
      if isFileFault failure then
        complain failure.message
        return faulty
      else throw failure
    | .ok (sheet, records) =>
      log records
      let search := listingSearch includePaths sheet.directory source
      let found ← ofResult
        (Dependency.dependencies (← disk) search sheet.path (sheet.contents.getD ""))
      print (String.join (found.map (· ++ "\n")))
      return done

/-- Does a task. -/
def Task.run (task : Task) (file : String) : Work Nat :=
  match task with
  | .compile config out cacheDirectory => Command.compile config out cacheDirectory file
  | .inline => Command.inline file
  | .dependencies includePaths => listDependencies includePaths file

/-- Runs the program with a row of arguments. Without a command it explains itself. -/
def run (session : Session) (arguments : List String) : Outcome :=
  match Invocation.parse arguments with
  | .error (.help text) => ⟨.ok done, text, "", session⟩
  | .error (.misuse text) => ⟨.ok mistaken, "", text, session⟩
  | .ok ⟨_, none⟩ => ⟨.ok done, programGrammar.helpText, "", session⟩
  | .ok ⟨verbose, some (task, file)⟩ =>
    let (ending, run) := (ExceptT.run (task.run file)).run ⟨session, verbose, "", ""⟩
    ⟨ending, run.output, run.messages, run.session⟩

end StyleBundle.Command
